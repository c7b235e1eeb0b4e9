import Webfang.Crawler.Scheduling

/-!
# Depth bound

A URL that waits at depth `d` is honest when every page it can still lead to, by at most
`maxDepth - d` links, is within `maxDepth` links of a seed. Discovery keeps waiting URLs
honest. A restore does not have to: it brings the frontier back at depth 0.
-/
namespace Webfang.Crawler

open Library Domain

variable (crates : UrlCrates) (config : CrawlerConfig) (site : SiteGraph)

/-- The links of the site as a relation between URLs. -/
def Linked (page link : String) : Prop := link ∈ site page

/-- The seed of the crawl, and the sitemap's additional ones. -/
def CrawlerConfig.seeds : List String :=
  config.seedUrl :: config.extraSeeds.map DiscoveredUrl.url

/-- At most `maxDepth` links lead from a seed to this page. -/
def NearSeed (page : String) : Prop :=
  ∃ seed ∈ config.seeds, Within (Linked site) (fun _ => True) config.maxDepth seed page

def Unvisited (visited : List String) (page : String) : Prop :=
  crates.canonicalKey page ∉ visited.map crates.canonicalKey

/-- Whatever this URL may still lead to past the restored visited set lies near a seed. -/
def Honest (visited : List String) (discovered : DiscoveredUrl) : Prop :=
  ∀ page, Within (Linked site) (Unvisited crates visited)
    (config.maxDepth - discovered.depth) discovered.url page → NearSeed config site page

/-- A start restores honest entries only: no page beyond the bound can be reached from one
by `maxDepth` links through pages that were not visited. -/
def RestoresNear (engine : Engine) (event : Event) : Prop :=
  event = .start →
    ∀ discovered ∈ (engine.restoreCheckpointState crates config).pending,
      Honest crates config site
        (engine.restoreCheckpointState crates config).visitedUrls discovered

/-- The invariant of the crawl: what waits and what was dispatched is honest. -/
structure DepthHonest (engine : Engine) : Prop where
  tracked : engine.Tracked crates
  waiting : ∀ discovered ∈ engine.scheduler.waiting,
    Honest crates config site engine.restored discovered
  dispatched : ∀ discovered ∈ engine.dispatched,
    Honest crates config site engine.restored discovered ∧
      Unvisited crates engine.restored discovered.url
  tasks : ∀ task ∈ engine.tasks, task.url ∈ engine.dispatched ∧
    task.LinksOwn config.maxDepth site

variable {crates config site} {visited : List String}

theorem honest_seed {seed : String} {depth : Nat} (member : seed ∈ config.seeds) :
    Honest crates config site visited ⟨seed, depth⟩ := by
  intro page within
  exact ⟨seed, member, (within.widen fun _ _ => trivial).mono (Nat.sub_le _ _)⟩

theorem Honest.near {discovered : DiscoveredUrl}
    (honest : Honest crates config site visited discovered)
    (unvisited : Unvisited crates visited discovered.url) :
    NearSeed config site discovered.url :=
  honest _ (.here unvisited)

/-- A link one step deeper than an honest page of lower depth is honest. -/
theorem Honest.link {discovered : DiscoveredUrl} {link : String}
    (honest : Honest crates config site visited discovered)
    (unvisited : Unvisited crates visited discovered.url)
    (gate : discovered.depth < config.maxDepth) (edge : link ∈ site discovered.url) :
    Honest crates config site visited ⟨link, discovered.depth + 1⟩ := by
  intro page within
  have budget : config.maxDepth - discovered.depth =
      (config.maxDepth - (discovered.depth + 1)) + 1 := by
    omega
  apply honest page
  rw [budget]
  exact .link unvisited edge within

theorem initial_honest : DepthHonest crates config site (Engine.initial config) where
  tracked := Engine.initial_tracked
  waiting := by simp [Engine.initial, CrawlScheduler.new, CrawlScheduler.waiting, UrlQueue.empty]
  dispatched := by simp [Engine.initial]
  tasks := by simp [Engine.initial]

theorem begin_honest {engine : Engine} (near : RestoresNear crates config site engine .start) :
    DepthHonest crates config site (engine.begin crates config) where
  tracked := Engine.begin_tracked engine
  waiting := by
    obtain ⟨-, queue, -, -⟩ := Engine.restoreCheckpointState_spec crates config engine
    refine Engine.begin_scheduler crates config engine
      (motive := fun scheduler => ∀ discovered ∈ scheduler.waiting,
        Honest crates config site (engine.restoreCheckpointState crates config).visitedUrls
          discovered) ?_ ?_
    · intro discovered member
      have split : discovered ∈ (engine.restoreCheckpointState crates config).pending ∨
          discovered = ⟨config.seedUrl, 0⟩ := by
        rw [CrawlScheduler.seed, CrawlScheduler.mem_waiting] at member
        rcases member with pending | heap
        · exact (List.mem_append.mp pending).imp_right List.mem_singleton.mp
        · have pushed := CrawlScheduler.waiting_push (CrawlScheduler.mem_waiting.mpr (.inr heap))
          rw [CrawlScheduler.mem_waiting, queue] at pushed
          simpa [UrlQueue.empty] using pushed
      -- the seed waits at depth 0, and the frontier is the guard's concern
      rcases split with restored | rfl
      · exact near rfl discovered restored
      · exact honest_seed List.mem_cons_self
    · intro scheduler url honest extra discovered member
      rcases CrawlScheduler.waiting_push member with old | rfl
      · exact honest discovered old
      · exact honest_seed (List.mem_cons_of_mem _ (List.mem_map_of_mem extra))
  dispatched := by simp [Engine.begin]
  tasks := by simp [Engine.begin]

theorem step_tasksHonest {engine next : Engine} {event : Event} (tasks : ∀ task ∈ engine.tasks,
      task.url ∈ engine.dispatched ∧ task.LinksOwn config.maxDepth site)
    (taken : Engine.Step crates config site engine event next) :
    ∀ task ∈ next.tasks, task.url ∈ next.dispatched ∧ task.LinksOwn config.maxDepth site := by
  intro task member
  rcases Engine.step_tasks taken task member with
    ⟨before, old, same, grown, how⟩ | ⟨pacing, spawned⟩
  · obtain ⟨dispatched, own⟩ := tasks before old
    refine ⟨grown.subset (same ▸ dispatched), ?_⟩
    rcases how with rfl | ended | ⟨cancelled, move, effect, moved⟩
    · exact own
    · intro links linking
      simp [Engine.hasEnded, linking] at ended
    · have moves := Task.move_linksOwn own moved
      rwa [same] at moves
  · constructor
    · rw [spawned]
      exact List.mem_append_right _ (List.mem_singleton.mpr rfl)
    · intro links linking
      rw [pacing] at linking
      cases linking

theorem step_honest {engine next : Engine} {event : Event}
    (honest : DepthHonest crates config site engine)
    (near : RestoresNear crates config site engine event)
    (taken : Engine.Step crates config site engine event next) :
    DepthHonest crates config site next := by
  obtain ⟨tracked, waiting, dispatched, tasks⟩ := honest
  have nextTracked := Engine.step_tracked tracked taken
  have nextTasks := step_tasksHonest tasks taken
  -- what a step may do to the scheduler: restart, nothing, the level, a link, a drain, a hand-out
  rcases Engine.step_scheduler taken with
    ⟨rfl, rfl⟩ | ⟨run, same⟩ | ⟨run, level, levelled⟩ |
      ⟨run, task, member, link, links, linking, pushed⟩ | ⟨run, drained⟩ |
      ⟨inFlight, handed, given, restored, -, grown⟩
  · exact begin_honest near
  · refine ⟨nextTracked, ?_, ?_, nextTasks⟩
    · rwa [same, run.restored]
    · rwa [run.dispatched, run.restored]
  · refine ⟨nextTracked, ?_, ?_, nextTasks⟩
    · rw [levelled, run.restored]
      exact waiting
    · rwa [run.dispatched, run.restored]
  · refine ⟨nextTracked, ?_, ?_, nextTasks⟩
    · rw [pushed, run.restored]
      intro discovered found
      rcases CrawlScheduler.waiting_push found with old | rfl
      · exact waiting discovered old
      -- a link is pushed one deeper than its page, which was honest when handed out
      · obtain ⟨handedOut, own⟩ := tasks task member
        obtain ⟨pageHonest, unvisited⟩ := dispatched task.url handedOut
        obtain ⟨gate, edge⟩ := own _ linking link List.mem_cons_self
        exact pageHonest.link unvisited gate edge
    · rwa [run.dispatched, run.restored]
  · refine ⟨nextTracked, ?_, ?_, nextTasks⟩
    · rw [drained, run.restored]
      exact fun discovered found =>
        waiting discovered (CrawlScheduler.waiting_drainDiscovered.mp found)
    · rwa [run.dispatched, run.restored]
  · obtain ⟨kept, handedOut⟩ := CrawlScheduler.nextUrl_waiting given
    refine ⟨nextTracked, ?_, ?_, nextTasks⟩
    · rw [restored]
      exact fun discovered found => waiting discovered (kept discovered found)
    · rw [restored, grown]
      intro discovered found
      rcases List.mem_append.mp found with old | new
      · exact dispatched discovered old
      -- a page is handed out at the depth it waited at
      · obtain ⟨waited, unknown⟩ := handedOut discovered (Option.mem_toList.mp new)
        refine ⟨waiting discovered waited, fun visited => unknown ?_⟩
        rw [tracked.consistent.visited.mem, CrawlScheduler.visitedKeys, tracked.history,
          List.map_append]
        exact List.mem_append_left _ visited

/-- In every crawl of runs and resumed runs whose starts restore honest entries only, every
page handed out is within `maxDepth` links of a seed. -/
theorem dispatched_near_seed {engine : Engine}
    (reached : Reachable (Engine.Step crates config site) (RestoresNear crates config site)
      (Engine.initial config) engine) :
    ∀ discovered ∈ engine.dispatched, NearSeed config site discovered.url := by
  have honest : DepthHonest crates config site engine :=
    reached.invariant initial_honest fun _ _ _ before near taken => step_honest before near taken
  intro discovered member
  obtain ⟨pageHonest, unvisited⟩ := honest.dispatched discovered member
  exact pageHonest.near unvisited

/-! A chain of three pages at depth bound 1, interrupted after its first page. -/

namespace InterruptedChain

def shallow : CrawlerConfig where
  seedUrl := "https://example.com/"
  seedAllowed := true
  maxDepth := 1
  maxPages := 9
  concurrency := 1
  checkpointEnabled := true
  checkpointInterval := 0
  extraSeeds := []

def chain : SiteGraph
  | "https://example.com/" => ["https://example.com/a"]
  | "https://example.com/a" => ["https://example.com/b"]
  | _ => []

/-- From the loop's head to the join of the page it dispatches, a page with one link. -/
def crawlPage (url : String) : List Event :=
  List.replicate 10 .advance ++
    [.task 0 .pace, .task 0 .fetch, .task 0 (.count url), .task 0 .send, .task 0 (.extract true),
      .task 0 .push, .task 0 .finish, .join 0]

/-- A signal, the save, the drain and the save at the close. -/
def interrupt : List Event :=
  [.signal, .advance, .advance, .advance, .persisted true, .advance, .advance, .advance, .advance,
    .persisted true]

def firstRun : List Event := crawlPage "https://example.com/" ++ interrupt

def resumedRun : List Event :=
  .start :: crawlPage "https://example.com/a" ++ List.replicate 8 .advance

def resumed : Option Engine :=
  runEvents (Engine.step plainUrls shallow chain) (Engine.initial shallow)
    (.start :: firstRun ++ resumedRun)

/-- A bound that the whole chain stays within. -/
def wide : CrawlerConfig := { shallow with maxDepth := 2 }

def frontier : List DiscoveredUrl := [⟨"https://example.com/", 0⟩, ⟨"https://example.com/a", 0⟩]

/-- A start would restore the first two pages at most. -/
def restoresFrontier (engine : Engine) (_ : Event) : Bool :=
  (engine.restoreCheckpointState plainUrls wide).pending.all (· ∈ frontier)

def resumedWithin : Option Engine :=
  runEvents (fun engine event =>
      if restoresFrontier engine event then engine.step plainUrls wide chain event else none)
    (Engine.initial wide) (.start :: firstRun ++ resumedRun)

theorem honest_second {visited : List String} :
    Honest plainUrls wide chain visited ⟨"https://example.com/a", 0⟩ := by
  intro page within
  refine ⟨_, List.mem_cons_self, .link trivial (show _ ∈ chain _ from List.mem_cons_self) ?_⟩
  rcases within.eq_or_link with rfl | ⟨link, edge, rest⟩
  · exact .here trivial
  · refine .link trivial edge ?_
    cases List.mem_singleton.mp edge
    -- the third page has no links
    rcases rest.eq_or_link with rfl | ⟨_, none, -⟩
    · exact .here trivial
    · cases none

end InterruptedChain

open InterruptedChain in
/-- The resumed run restores the frontier of the first and goes on from its second page. -/
theorem dispatched_near_seed_chain :
    ∃ engine, resumedWithin = some engine ∧ engine.requeued = frontier ∧
      engine.dispatched = [⟨"https://example.com/a", 0⟩, ⟨"https://example.com/b", 1⟩] ∧
      ∀ discovered ∈ engine.dispatched, NearSeed wide chain discovered.url := by
  have history : resumedWithin.map (fun engine => (engine.requeued, engine.dispatched)) =
      some (frontier, [⟨"https://example.com/a", 0⟩, ⟨"https://example.com/b", 1⟩]) := by
    decide
  obtain ⟨engine, ran, history⟩ := Option.map_eq_some_iff.mp history
  obtain ⟨requeued, dispatched⟩ := Prod.mk.inj history
  refine ⟨engine, ran, requeued, dispatched,
    dispatched_near_seed (Reachable.run_checked .start ?_ ran)⟩
  intro engine event restores _ discovered member
  rcases List.mem_cons.mp (of_decide_eq_true (List.all_eq_true.mp restores discovered member))
    with rfl | second
  · exact honest_seed List.mem_cons_self
  · cases List.mem_singleton.mp second
    exact honest_second

open InterruptedChain in
/-- The interrupted frontier comes back at depth 0, so the resumed run follows the links of a
page at the bound. -/
theorem resumed_crawl_exceeds_depth :
    ∃ engine, Reachable (Engine.Step plainUrls shallow chain) (fun _ _ => True)
        (Engine.initial shallow) engine ∧
      ⟨"https://example.com/b", 1⟩ ∈ engine.dispatched ∧
      ¬ NearSeed shallow chain "https://example.com/b" := by
  have ran : resumed.isSome := by decide
  have handedOut : resumed.map Engine.dispatched =
      some [⟨"https://example.com/a", 0⟩, ⟨"https://example.com/b", 1⟩] := by
    decide
  obtain ⟨engine, reached⟩ := Option.isSome_iff_exists.mp ran
  rw [reached, Option.map_some, Option.some.injEq] at handedOut
  refine ⟨engine, Reachable.run .start (fun _ _ _ => trivial) reached, ?_, ?_⟩
  · rw [handedOut]
    decide
  · rintro ⟨seed, member, within⟩
    cases List.mem_singleton.mp member
    rcases within.eq_or_link with same | ⟨link, edge, rest⟩
    · exact absurd same (by decide)
    · cases List.mem_singleton.mp edge
      exact absurd rest.eq_of_zero (by decide)

end Webfang.Crawler
