import Webfang.Crawler.Scheduling

/-!
# Completeness of a crawl

A URL that the queue has accepted waits, in the heap or in the pending buffer, until its
key is in the visited set. When the loop leaves through its condition nothing waits, since
the heap can only fill while a task runs, and the loop drains it before it looks again.
-/
namespace Webfang.Crawler

open Library Domain

/-- The loop has drained the queue and not looked at its condition since. -/
def Phase.isDrained : Phase → Bool
  | .periodic | .budget | .spawning _ _ | .waiting => true
  | .snapshot .budget | .snapshotQueue _ _ .budget | .persisting _ .budget => true
  | _ => false

/-- What keeps a link from being overlooked: after a drain only a running task can have
filled the heap, and the loop awaits a join only with work left. -/
structure Covered (engine : Engine) : Prop where
  drained : engine.phase.isDrained = true →
    engine.scheduler.queue.heap = [] ∨ engine.tasks ≠ []
  awaiting : engine.phase = .awaiting → engine.scheduler.pending ≠ []
  head : engine.phase = .head → engine.scheduler.queue.heap = [] ∨ engine.tasks ≠ [] ∨
    engine.scheduler.pending ≠ []

variable (crates : UrlCrates)

structure Complete (engine : Engine) : Prop where
  tracked : engine.Tracked crates
  /-- What the queue accepted waits or was visited. -/
  placed : ∀ url ∈ engine.scheduler.queue.accepted,
    url ∈ engine.scheduler.waiting ∨ url.key crates ∈ engine.scheduler.visitedKeys crates
  /-- What waits or was handed out was accepted, or restored with the frontier. -/
  origin : ∀ url, url ∈ engine.scheduler.waiting ∨ url ∈ engine.dispatched →
    url ∈ engine.scheduler.queue.accepted ∨ url ∈ engine.requeued
  covered : Covered engine

variable {crates} {config : CrawlerConfig} {site : SiteGraph}
variable {engine next : Engine} {event : Event}

/-! ### The scheduler's part -/

namespace CrawlScheduler

variable {scheduler scheduler' : CrawlScheduler}

theorem accepted_push {url accepted : DiscoveredUrl} {source : UrlSource}
    (member : accepted ∈ (scheduler.push crates url source).queue.accepted) :
    accepted ∈ scheduler.queue.accepted ∨
      accepted = url ∧ url ∈ (scheduler.push crates url source).waiting := by
  rcases push_cases crates scheduler url source with ⟨-, same⟩ | ⟨-, pushed⟩
  · exact .inl (same ▸ member)
  · rw [pushed] at member ⊢
    rcases List.mem_append.mp member with old | new
    · exact .inl old
    · refine .inr ⟨List.mem_singleton.mp new, mem_waiting.mpr (.inr ?_)⟩
      exact List.mem_map.mpr ⟨_, List.mem_cons_self, rfl⟩

/-- A push keeps what waits and what was accepted, and what it lets in it accepts. -/
theorem push_mono (crates : UrlCrates) (scheduler : CrawlScheduler) (url : DiscoveredUrl)
    (source : UrlSource) :
    (∀ old ∈ scheduler.waiting, old ∈ (scheduler.push crates url source).waiting) ∧
      (∀ old ∈ scheduler.queue.accepted,
        old ∈ (scheduler.push crates url source).queue.accepted) ∧
      ∀ new ∈ (scheduler.push crates url source).waiting, new ∈ scheduler.waiting ∨
        new ∈ (scheduler.push crates url source).queue.accepted := by
  rcases push_cases crates scheduler url source with ⟨-, same⟩ | ⟨-, pushed⟩
  · rw [same]
    exact ⟨fun _ old => old, fun _ old => old, fun _ old => .inl old⟩
  · refine ⟨fun old member => ?_, fun old member => ?_, fun new member => ?_⟩
    · rw [pushed]
      exact mem_waiting.mpr ((mem_waiting.mp member).imp_right (List.mem_cons_of_mem _))
    · rw [pushed]
      exact List.mem_append_left _ member
    · rcases waiting_push member with old | rfl
      · exact .inl old
      · right
        rw [pushed]
        exact List.mem_append_right _ (List.mem_singleton.mpr rfl)

/-- What waited before a hand-out still waits, or its key was visited. -/
theorem nextUrl_placed {inFlight : Nat} {handed : Option DiscoveredUrl}
    (consistent : Consistent crates scheduler)
    (taken : scheduler.nextUrl crates inFlight = (scheduler', handed)) :
    scheduler'.queue = scheduler.queue ∧
      ∀ url ∈ scheduler.waiting,
        url ∈ scheduler'.waiting ∨ url.key crates ∈ scheduler'.visitedKeys crates := by
  -- the limit is reached, every pending URL is known, or one of them is handed out
  rcases nextUrl_cases taken with
    ⟨-, rfl⟩ | ⟨-, all, rfl⟩ | ⟨skipped, discovered, rest, -, split, old, -, rfl⟩
  · exact ⟨rfl, fun _ member => .inl member⟩
  · refine ⟨rfl, fun url member => ?_⟩
    rcases mem_waiting.mp member with pending | heap
    · exact .inr ((consistent.visited.mem _).mp (all url pending))
    · exact .inl (mem_waiting.mpr (.inr heap))
  · refine ⟨rfl, fun url member => ?_⟩
    have grown : (scheduler.visit crates discovered.url).visitedKeys crates =
        scheduler.visitedKeys crates ++ [discovered.key crates] := by
      rw [visitedKeys, visit, List.map_append]
      rfl
    rcases mem_waiting.mp member with pending | heap
    · rw [split, List.mem_append, List.mem_cons] at pending
      -- in front of the one handed out only known URLs were dropped
      rcases pending with dropped | rfl | later
      · right
        have visited := (consistent.visited.mem _).mp (old url dropped)
        exact grown ▸ List.mem_append_left _ visited
      · right
        exact grown ▸ List.mem_append_right _ (List.mem_singleton.mpr rfl)
      · exact .inl (mem_waiting.mpr (.inl later))
    · exact .inl (mem_waiting.mpr (.inr heap))

end CrawlScheduler

/-! ### Starts -/

theorem initial_complete : Complete crates (Engine.initial config) where
  tracked := Engine.initial_tracked
  placed := by simp [Engine.initial, CrawlScheduler.new, UrlQueue.empty]
  origin := by simp [Engine.initial, CrawlScheduler.new, CrawlScheduler.waiting, UrlQueue.empty]
  covered := ⟨nofun, nofun, nofun⟩

variable (crates config) in
/-- The seeds wait when the loop begins, and besides them only the restored frontier. -/
theorem begin_waiting (engine : Engine) :
    (∀ url ∈ (engine.begin crates config).scheduler.queue.accepted,
        url ∈ (engine.begin crates config).scheduler.waiting) ∧
      (∀ url ∈ (engine.begin crates config).scheduler.waiting,
        url ∈ (engine.begin crates config).scheduler.queue.accepted ∨
          url ∈ (engine.begin crates config).requeued) ∧
      (engine.begin crates config).scheduler.pending ≠ [] := by
  obtain ⟨-, queue, -, -⟩ := Engine.restoreCheckpointState_spec crates config engine
  refine Engine.begin_scheduler crates config engine
    (motive := fun scheduler => (∀ url ∈ scheduler.queue.accepted, url ∈ scheduler.waiting) ∧
      (∀ url ∈ scheduler.waiting, url ∈ scheduler.queue.accepted ∨
        url ∈ (engine.restoreCheckpointState crates config).pending) ∧
      scheduler.pending ≠ []) ?_ ?_
  · rcases CrawlScheduler.push_cases crates (engine.restoreCheckpointState crates config)
      ⟨config.seedUrl, 0⟩ .seed with ⟨known, -⟩ | ⟨-, pushed⟩
    -- the restored queue is empty, so the seed is new to it
    · rw [queue] at known
      simp [UrlQueue.empty] at known
    · rw [CrawlScheduler.seed, pushed, queue]
      refine ⟨?_, ?_, by simp⟩
      · intro url member
        refine CrawlScheduler.mem_waiting.mpr (.inl (List.mem_append_right _ ?_))
        simpa [UrlQueue.empty] using member
      · intro url member
        simp only [CrawlScheduler.waiting, UrlQueue.empty, List.mem_append, List.mem_singleton,
          List.map_cons, List.map_nil, List.nil_append, PrioritizedUrl.fromSource] at member ⊢
        rcases member with (restored | seed) | seed
        · exact .inr restored
        · exact .inl seed
        · exact .inl seed
  · rintro scheduler url ⟨waits, known, pending⟩ -
    -- the other seeds are pushed one by one
    obtain ⟨keeps, accepts, new⟩ := CrawlScheduler.push_mono crates scheduler url .sitemap
    refine ⟨fun old member => ?_, fun old member => ?_, pending⟩
    · rcases CrawlScheduler.accepted_push member with before | ⟨rfl, waits⟩
      · exact keeps old (waits old before)
      · exact waits
    · rcases new old member with before | accepted
      · exact (known old before).imp_left (accepts old)
      · exact .inl accepted

theorem begin_complete (engine : Engine) : Complete crates (engine.begin crates config) := by
  obtain ⟨waits, known, pending⟩ := begin_waiting crates config engine
  refine ⟨Engine.begin_tracked engine, fun url member => .inl (waits url member), ?_, ?_⟩
  · rintro url (waiting | dispatched)
    · exact known url waiting
    · cases dispatched
  · have phase : (engine.begin crates config).phase = .head ∨
        (engine.begin crates config).phase = .idle := by
      cases allowed : config.seedAllowed <;> simp [Engine.begin, allowed]
    refine ⟨fun drained => ?_, fun awaiting => ?_, fun _ => .inr (.inr pending)⟩
    · rcases phase with here | here <;> rw [here] at drained <;> cases drained
    · exact pending

/-! ### Steps -/

/-- A step that leaves the loop, the pending buffer and the heap alone keeps `Covered`, and so
does one that fills the heap while a task runs. -/
theorem Covered.frame (covered : Covered engine) (phase : next.phase = engine.phase)
    (heap : next.scheduler.queue.heap = engine.scheduler.queue.heap ∨ next.tasks ≠ [])
    (pending : next.scheduler.pending = engine.scheduler.pending)
    (tasks : engine.tasks ≠ [] → next.tasks ≠ []) : Covered next := by
  obtain ⟨drained, awaiting, head⟩ := covered
  constructor
  · rw [phase]
    intro here
    rcases heap with same | running
    · exact same ▸ (drained here).imp_right tasks
    · exact .inr running
  · rwa [phase, pending]
  · rw [phase, pending]
    intro here
    rcases heap with same | running
    · exact same ▸ (head here).imp_right (Or.imp_left tasks)
    · exact .inr (.inl running)

/-- The phases that lead back into a round: something is left to do there. -/
def Phase.isBetweenRounds : Phase → Bool
  | .head | .awaiting => true
  | _ => false

theorem Covered.inRound (drained : next.phase.isDrained = true →
      next.scheduler.queue.heap = [] ∨ next.tasks ≠ [])
    (inside : next.phase.isBetweenRounds = false) : Covered next where
  drained := drained
  awaiting here := by
    rw [here] at inside
    cases inside
  head here := by
    rw [here] at inside
    cases inside

/-- A step of the loop into a phase that promises nothing. -/
theorem Covered.elsewhere (drained : next.phase.isDrained = false)
    (inside : next.phase.isBetweenRounds = false) : Covered next := by
  refine .inRound (fun here => ?_) inside
  rw [drained] at here
  cases here

/-- A join or its time limit leads to the head of the next round, with the work that was waited for. -/
theorem Covered.nextRound (phase : next.phase = .head) (pending : next.scheduler.pending ≠ []) :
    Covered next where
  drained here := by
    rw [phase] at here
    cases here
  awaiting here := by
    rw [phase] at here
    cases here
  head _ := .inr (.inr pending)

/-- Where a step of the loop that moves no URL leads: to the head only after a round, to a
wait only with work left, and among the drained phases only from one of them. -/
theorem control_phase {control : Engine.Control} (moved : engine.control config = some control) :
    (control.phase.isDrained = true → engine.phase.isDrained = true) ∧
      (control.phase = .awaiting → engine.scheduler.pending ≠ []) ∧
      (control.phase = .head → engine.phase = .waiting) := by
  unfold Engine.control Engine.goto Engine.stop at moved
  cases here : engine.phase <;> simp only [here] at moved
  case waiting =>
    split at moved
    next =>
      cases moved
      exact ⟨nofun, nofun, fun _ => rfl⟩
    next work =>
      cases moved
      refine ⟨nofun, fun _ none => work ?_, nofun⟩
      simp [CrawlScheduler.hasPendingWork, none]
  case snapshot after =>
    cases after <;> split at moved <;> cases moved <;>
      exact ⟨by simp [Phase.isDrained, AfterSave.phase], nofun, nofun⟩
  case snapshotQueue visited pagesCrawled after =>
    cases after <;> cases moved <;> exact ⟨by simp [Phase.isDrained], nofun, nofun⟩
  all_goals
    (repeat' split at moved) <;> cases moved <;>
      exact ⟨by simp [Phase.isDrained], nofun, nofun⟩

theorem step_covered (covered : Covered engine) (consistent : engine.scheduler.Consistent crates)
    (taken : Engine.Step crates config site engine event next) (goes : event ≠ .start) :
    Covered next := by
  cases event with
  | start => exact absurd rfl goes
  | kill =>
    cases taken
    exact .elsewhere rfl rfl
  | signal | cancel | setLevel _ =>
    cases taken
    exact covered.frame rfl (.inl rfl) rfl id
  | task index move =>
    obtain ⟨task, phase, effect, found, moved, rfl⟩ := Engine.taskStep_eq_some taken
    -- the task that moves is still in the join set, so a heap it fills is looked after
    have running : engine.tasks.set index { task with phase } ≠ [] := by
      have bound := (List.getElem?_eq_some_iff.mp found).1
      exact List.ne_nil_of_length_pos (by rw [List.length_set]; omega)
    cases effect with
    | pushLink link => exact covered.frame rfl (.inr running) rfl fun _ => running
    | _ => exact covered.frame rfl (.inl rfl) rfl fun _ => running
  | advance =>
    rcases Engine.advance_cases taken with
      ⟨-, rfl⟩ | ⟨collected, remaining, here, rfl⟩ | ⟨control, moved, rfl⟩
    · exact .inRound (fun _ => .inl rfl) rfl
    · have before := covered.drained (by rw [here]; rfl)
      rcases Engine.spawn_cases crates engine collected remaining with
        ended | ⟨scheduler, handed, ended⟩ | ⟨left, scheduler, discovered, -, -, spawned⟩
      · rw [ended]
        exact .inRound (fun _ => before) rfl
      · rw [ended]
        have queue := (CrawlScheduler.nextUrl_placed consistent handed).1
        exact .inRound (fun _ => by simpa only [queue] using before) rfl
      · rw [spawned]
        exact .inRound (fun _ => .inr (by simp)) rfl
    · obtain ⟨drained, awaiting, head⟩ := control_phase moved
      refine ⟨fun here => covered.drained (drained here), awaiting, fun here => ?_⟩
      exact (covered.drained (by rw [head here]; rfl)).imp_right .inl
  | join index =>
    obtain ⟨phase, task, joins, -, -, rfl⟩ := Engine.join_eq_some taken
    cases here : engine.phase with
    | awaiting =>
      rw [here] at joins
      cases joins
      exact .nextRound rfl (covered.awaiting here)
    | joining | draining =>
      rw [here] at joins
      cases joins
      exact .elsewhere rfl rfl
    | _ =>
      rw [here] at joins
      cases joins
  | giveUp =>
    simp only [Engine.Step, Engine.step, Option.ite_none_right_eq_some] at taken
    obtain ⟨here, taken⟩ := taken
    cases taken
    exact .nextRound rfl (covered.awaiting here)
  | abort index =>
    obtain ⟨task, here, -, -, rfl⟩ := Engine.abort_eq_some taken
    refine .elsewhere ?_ ?_
    all_goals simp [Engine.recordEnd, Engine.setPhase, here, Phase.isDrained, Phase.isBetweenRounds]
  | persisted written =>
    obtain ⟨state, after, here, rfl⟩ := Engine.persisted_eq_some taken
    cases after with
    | budget => exact .inRound (fun _ => covered.drained (by rw [here]; rfl)) rfl
    | draining | finished => exact .elsewhere rfl rfl

theorem step_complete (complete : Complete crates engine)
    (taken : Engine.Step crates config site engine event next) : Complete crates next := by
  obtain ⟨tracked, placed, origin, covered⟩ := complete
  have nextTracked := Engine.step_tracked tracked taken
  by_cases restart : event = .start
  · subst restart
    simp only [Engine.Step, Engine.step, Option.ite_none_right_eq_some] at taken
    cases taken.2
    exact begin_complete engine
  have nextCovered := step_covered covered tracked.consistent taken restart
  -- what a step may do to the scheduler: restart, nothing, the level, a link, a drain, a hand-out
  rcases Engine.step_scheduler taken with
    ⟨rfl, -⟩ | ⟨run, same⟩ | ⟨run, level, levelled⟩ | ⟨run, task, -, link, links, -, pushed⟩ |
      ⟨run, drained⟩ | ⟨inFlight, handed, given, -, requeued, dispatched⟩
  · exact absurd rfl restart
  · exact ⟨nextTracked, by rwa [same], by rwa [same, run.dispatched, run.requeued], nextCovered⟩
  · refine ⟨nextTracked, ?_, ?_, nextCovered⟩
    · rw [levelled]
      exact placed
    · rw [levelled, run.dispatched, run.requeued]
      exact origin
  · obtain ⟨keeps, accepts, new⟩ :=
      CrawlScheduler.push_mono crates engine.scheduler ⟨link, task.url.depth + 1⟩ .link
    refine ⟨nextTracked, ?_, ?_, nextCovered⟩
    · rw [pushed]
      intro url member
      rcases CrawlScheduler.accepted_push member with before | ⟨rfl, waits⟩
      · exact (placed url before).imp_left (keeps url)
      · exact .inl waits
    · rw [pushed, run.dispatched, run.requeued]
      rintro url (waiting | handedOut)
      · rcases new url waiting with before | accepted
        · exact (origin url (.inl before)).imp_left (accepts url)
        · exact .inl accepted
      · exact (origin url (.inr handedOut)).imp_left (accepts url)
  · refine ⟨nextTracked, ?_, ?_, nextCovered⟩
    · rw [drained]
      exact fun url member =>
        (placed url member).imp_left CrawlScheduler.waiting_drainDiscovered.mpr
    · rw [drained, run.dispatched, run.requeued]
      exact fun url member =>
        origin url (member.imp_left CrawlScheduler.waiting_drainDiscovered.mp)
  · obtain ⟨queue, moves⟩ := CrawlScheduler.nextUrl_placed tracked.consistent given
    obtain ⟨kept, handedOut⟩ := CrawlScheduler.nextUrl_waiting given
    have visited : ∀ key, key ∈ engine.scheduler.visitedKeys crates →
        key ∈ next.scheduler.visitedKeys crates := by
      intro key member
      rw [CrawlScheduler.visitedKeys, CrawlScheduler.nextUrl_visitedUrls given, List.map_append]
      exact List.mem_append_left _ member
    refine ⟨nextTracked, ?_, ?_, nextCovered⟩
    · rw [queue]
      intro url member
      rcases placed url member with waiting | seen
      · exact moves url waiting
      · exact .inr (visited _ seen)
    · rw [queue, requeued, dispatched]
      rintro url (waiting | member)
      · exact origin url (.inl (kept url waiting))
      · rcases List.mem_append.mp member with old | new
        · exact origin url (.inr old)
        · exact origin url (.inl (handedOut url (Option.mem_toList.mp new)).1)

/-! ### Leaving through the condition -/

/-- When the loop stands at its condition with no pending work and no task, no link is left in
the heap. No two pages handed out share a key, nor does one share it with a page the run
restored as visited. Every URL the queue accepted was restored as visited under its key, or
was handed out exactly once: itself, or a restored frontier entry of the same key. -/
theorem accepted_dispatched_once
    (reached : Reachable (Engine.Step crates config site) (fun _ _ => True)
      (Engine.initial config) engine)
    (head : engine.phase = .head) (work : engine.scheduler.hasPendingWork = false)
    (tasks : engine.tasks = []) :
    engine.scheduler.queue.heap = [] ∧
      (engine.dispatched.map (DiscoveredUrl.key crates)).Nodup ∧
      (∀ url ∈ engine.dispatched, url.key crates ∉ engine.restored.map crates.canonicalKey) ∧
      ∀ url ∈ engine.scheduler.queue.accepted,
        url.key crates ∈ engine.restored.map crates.canonicalKey ∨
          (engine.dispatched.map (DiscoveredUrl.key crates)).count (url.key crates) = 1 ∧
            (url ∈ engine.dispatched ∨
              ∃ same ∈ engine.requeued, same ∈ engine.dispatched ∧
                same.key crates = url.key crates) := by
  have complete : Complete crates engine :=
    reached.invariant initial_complete fun _ _ _ complete _ taken => step_complete complete taken
  obtain ⟨tracked, placed, origin, covered⟩ := complete
  have pending : engine.scheduler.pending = [] := by
    simpa [CrawlScheduler.hasPendingWork] using work
  -- with no task and nothing pending the condition itself says that the heap is empty
  have heap : engine.scheduler.queue.heap = [] := by
    rcases covered.head head with none | running | more
    · exact none
    · exact absurd tasks running
    · exact absurd pending more
  obtain ⟨distinct, apart⟩ := tracked.dispatched_distinct
  refine ⟨heap, distinct, apart, fun url accepted => ?_⟩
  have visited : url.key crates ∈ engine.scheduler.visitedKeys crates := by
    refine (placed url accepted).resolve_left ?_
    simp [CrawlScheduler.waiting, pending, heap]
  -- the visited set is what was restored followed by what was handed out
  rw [CrawlScheduler.visitedKeys, tracked.history, List.map_append, List.map_map] at visited
  rcases List.mem_append.mp visited with restored | handedOut
  · exact .inl restored
  · refine .inr ⟨List.count_eq_one_of_mem distinct handedOut, ?_⟩
    obtain ⟨same, member, key⟩ := List.mem_map.mp handedOut
    -- the page under that key is the URL itself, unless it came with the frontier
    rcases origin same (.inr member) with acceptedToo | requeued
    · left
      have eq := List.inj_on_of_nodup_map tracked.consistent.accepted.distinct acceptedToo accepted key
      exact eq ▸ member
    · exact .inr ⟨same, requeued, member, key⟩

/-! A site of two pages, crawled whole, and its first page, crawled again after a stop. -/

namespace TwoPages

def crawl (maxDepth : Nat) (checkpointEnabled : Bool) : CrawlerConfig where
  seedUrl := "https://example.com/"
  seedAllowed := true
  maxDepth
  maxPages := 9
  concurrency := 1
  checkpointEnabled
  checkpointInterval := 0
  extraSeeds := []

def oneLink : SiteGraph
  | "https://example.com/" => ["https://example.com/a"]
  | _ => []

/-- A round from the loop's head that hands out a page, and the step after it. -/
def round : List Event := List.replicate 10 .advance

def collect (url : String) : List Event :=
  [.task 0 .pace, .task 0 .fetch, .task 0 (.count url), .task 0 .send, .task 0 (.extract true)]

/-- The last page ends while the loop looks at its condition, and is joined in the next
round. -/
def wholeCrawl : Option Engine :=
  runEvents (Engine.step plainUrls (crawl 1 false) oneLink) (Engine.initial (crawl 1 false))
    (.start :: round ++ collect "https://example.com/" ++ [.task 0 .push, .task 0 .finish, .join 0] ++
      round ++ collect "https://example.com/a" ++ [.task 0 .finish, .advance, .advance, .join 0] ++
      List.replicate 7 .advance)

def stoppedAndResumed : Option Engine :=
  runEvents (Engine.step plainUrls (crawl 0 true) oneLink) (Engine.initial (crawl 0 true))
    (.start :: round ++ collect "https://example.com/" ++ [.task 0 .finish, .join 0, .signal] ++
      [.advance, .advance, .advance, .persisted true, .kill, .start] ++ List.replicate 9 .advance)

end TwoPages

open TwoPages in
theorem accepted_dispatched_once_whole :
    ∃ engine, wholeCrawl = some engine ∧
      engine.scheduler.queue.accepted =
        [⟨"https://example.com/", 0⟩, ⟨"https://example.com/a", 1⟩] ∧
      ∀ url ∈ engine.scheduler.queue.accepted,
        url.key plainUrls ∈ engine.restored.map plainUrls.canonicalKey ∨
          (engine.dispatched.map (DiscoveredUrl.key plainUrls)).count (url.key plainUrls) = 1 ∧
            (url ∈ engine.dispatched ∨
              ∃ same ∈ engine.requeued, same ∈ engine.dispatched ∧
                same.key plainUrls = url.key plainUrls) := by
  have view : wholeCrawl.map (fun engine => (engine.scheduler.queue.accepted, engine.phase,
      engine.scheduler.hasPendingWork, engine.tasks)) =
      some ([⟨"https://example.com/", 0⟩, ⟨"https://example.com/a", 1⟩], .head, false, []) := by
    decide
  obtain ⟨engine, ran, view⟩ := Option.map_eq_some_iff.mp view
  simp only [Prod.mk.injEq] at view
  obtain ⟨accepted, head, work, tasks⟩ := view
  have reached := Reachable.run .start (fun _ _ _ => trivial) ran
  exact ⟨engine, ran, accepted, (accepted_dispatched_once reached head work tasks).2.2.2⟩

open TwoPages in
/-- A resumed run accepts the seed and never hands it out, since it was restored as visited. -/
theorem restored_seed_not_dispatched :
    ∃ engine, Reachable (Engine.Step plainUrls (crawl 0 true) oneLink) (fun _ _ => True)
        (Engine.initial (crawl 0 true)) engine ∧
      engine.phase = .head ∧ engine.scheduler.hasPendingWork = false ∧ engine.tasks = [] ∧
      engine.cancelled = false ∧ engine.shutdown = false ∧
      engine.counter < (crawl 0 true).maxPages ∧
      ⟨"https://example.com/", 0⟩ ∈ engine.scheduler.queue.accepted ∧
      engine.dispatched = [] := by
  have view : stoppedAndResumed.map (fun engine => (engine.phase,
      engine.scheduler.hasPendingWork, engine.tasks, engine.cancelled, engine.shutdown)) =
      some (.head, false, [], false, false) := by
    decide
  have history : stoppedAndResumed.map (fun engine => (engine.counter,
      engine.scheduler.queue.accepted, engine.dispatched)) =
      some (0, [⟨"https://example.com/", 0⟩], []) := by
    decide
  obtain ⟨engine, ran, view⟩ := Option.map_eq_some_iff.mp view
  rw [ran, Option.map_some, Option.some.injEq] at history
  simp only [Prod.mk.injEq] at view history
  obtain ⟨head, work, tasks, cancelled, shutdown⟩ := view
  obtain ⟨counter, accepted, dispatched⟩ := history
  refine ⟨engine, Reachable.run .start (fun _ _ _ => trivial) ran, head, work, tasks, cancelled,
    shutdown, ?_, ?_, dispatched⟩
  · rw [counter]
    decide
  · rw [accepted]
    exact List.mem_cons_self

end Webfang.Crawler
