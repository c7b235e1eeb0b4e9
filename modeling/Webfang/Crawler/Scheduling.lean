import Webfang.Crawler.Engine
import Webfang.Library.Dedup

/-!
# Scheduling

What each operation of the scheduler does to its three sources of URLs: the queue's dedup
set, the pending buffer and the visited set. The visited set of a run is what the run
restored followed by what it dispatched, and no canonical key occurs in it twice.
-/
namespace Webfang.Crawler

open Library Domain

variable (crates : UrlCrates)

def DiscoveredUrl.key (discovered : DiscoveredUrl) : String := crates.canonicalKey discovered.url

namespace CrawlScheduler

def visitedKeys (scheduler : CrawlScheduler) : List String :=
  scheduler.visitedUrls.map crates.canonicalKey

def acceptedKeys (scheduler : CrawlScheduler) : List String :=
  scheduler.queue.accepted.map (DiscoveredUrl.key crates)

/-- Both dedup sets hold the keys of the URLs recorded beside them. -/
structure Consistent (scheduler : CrawlScheduler) : Prop where
  visited : Mirrors scheduler.visited (scheduler.visitedKeys crates)
  accepted : Mirrors scheduler.queue.seen (scheduler.acceptedKeys crates)

variable {crates} {scheduler next : CrawlScheduler}

theorem new_consistent (concurrency : Nat) : Consistent crates (new concurrency) :=
  ⟨.empty, .empty⟩

/-! ### The visited set -/

def visit (crates : UrlCrates) (scheduler : CrawlScheduler) (url : String) : CrawlScheduler :=
  { scheduler with
    visited := scheduler.visited.insert (crates.canonicalKey url)
    visitedUrls := scheduler.visitedUrls ++ [url] }

theorem recordVisit_known {url : String} (known : crates.canonicalKey url ∈ scheduler.visited) :
    scheduler.recordVisit crates url = (scheduler, false) := by
  simp [recordVisit, known]

theorem recordVisit_unknown {url : String} (unknown : crates.canonicalKey url ∉ scheduler.visited) :
    scheduler.recordVisit crates url = (scheduler.visit crates url, true) := by
  simp [recordVisit, visit, unknown]

theorem visit_consistent {url : String} (consistent : Consistent crates scheduler)
    (unknown : crates.canonicalKey url ∉ scheduler.visited) :
    Consistent crates (scheduler.visit crates url) where
  visited := by
    simpa only [visitedKeys, visit, List.map_append, List.map_singleton]
      using consistent.visited.insert unknown
  accepted := consistent.accepted

/-- What restoring the visited set leaves alone, and what it adds: some of the URLs, and a
key for each of them. -/
theorem restoreVisited_spec (urls : List String) (consistent : Consistent crates scheduler) :
    Consistent crates (scheduler.restoreVisited crates urls) ∧
      (scheduler.restoreVisited crates urls).queue = scheduler.queue ∧
      (scheduler.restoreVisited crates urls).pending = scheduler.pending ∧
      (∀ url ∈ (scheduler.restoreVisited crates urls).visitedUrls,
        url ∈ scheduler.visitedUrls ∨ url ∈ urls) ∧
      ∀ url, crates.canonicalKey url ∈ scheduler.visited ∨ url ∈ urls →
        crates.canonicalKey url ∈ (scheduler.restoreVisited crates urls).visited := by
  induction urls generalizing scheduler with
  | nil =>
    refine ⟨consistent, rfl, rfl, fun _ member => .inl member, fun url member => ?_⟩
    exact member.resolve_right (List.not_mem_nil)
  | cons first rest ih =>
    rw [restoreVisited, List.foldl_cons, ← restoreVisited]
    by_cases known : crates.canonicalKey first ∈ scheduler.visited
    · -- the key is there already, and the URL is dropped
      rw [recordVisit_known known]
      obtain ⟨kept, queue, pending, members, keys⟩ := ih consistent
      refine ⟨kept, queue, pending, fun url member =>
        (members url member).imp_right (List.mem_cons_of_mem _), fun url member => keys url ?_⟩
      rcases member with old | listed
      · exact .inl old
      · rcases List.mem_cons.mp listed with rfl | later
        · exact .inl known
        · exact .inr later
    · -- the URL is the first of its key
      rw [recordVisit_unknown known]
      obtain ⟨kept, queue, pending, members, keys⟩ := ih (visit_consistent consistent known)
      refine ⟨kept, queue, pending, fun url member => ?_, fun url member => keys url ?_⟩
      · rcases members url member with old | new
        · rcases List.mem_append.mp old with old | this
          · exact .inl old
          · exact .inr (List.mem_singleton.mp this ▸ List.mem_cons_self)
        · exact .inr (List.mem_cons_of_mem _ new)
      · rw [visit, Std.ExtTreeSet.mem_insert, Std.LawfulEqCmp.compare_eq_iff_eq]
        rcases member with old | listed
        · exact .inl (.inr old)
        · rcases List.mem_cons.mp listed with rfl | later
          · exact .inl (.inl rfl)
          · exact .inr later

/-! ### The queue -/

/-- A push changes nothing, or puts the URL into the heap, the dedup set and the history. -/
theorem push_cases (crates : UrlCrates) (scheduler : CrawlScheduler) (url : DiscoveredUrl)
    (source : UrlSource) :
    (url.key crates ∈ scheduler.queue.seen ∧ scheduler.push crates url source = scheduler) ∨
    (url.key crates ∉ scheduler.queue.seen ∧ scheduler.push crates url source =
      { scheduler with queue :=
        { heap := .fromSource url source :: scheduler.queue.heap
          seen := scheduler.queue.seen.insert (url.key crates)
          accepted := scheduler.queue.accepted ++ [url] } }) := by
  by_cases known : url.key crates ∈ scheduler.queue.seen
  · refine .inl ⟨known, ?_⟩
    rw [DiscoveredUrl.key] at known
    simp [push, UrlQueue.pushPrioritized, known]
  · refine .inr ⟨known, ?_⟩
    rw [DiscoveredUrl.key] at known
    simp [push, UrlQueue.pushPrioritized, DiscoveredUrl.key, known]

theorem push_consistent (url : DiscoveredUrl) (source : UrlSource)
    (consistent : Consistent crates scheduler) :
    Consistent crates (scheduler.push crates url source) := by
  rcases push_cases crates scheduler url source with ⟨-, same⟩ | ⟨unknown, pushed⟩
  · rwa [same]
  · rw [pushed]
    refine ⟨consistent.visited, ?_⟩
    simpa only [acceptedKeys, List.map_append, List.map_singleton]
      using consistent.accepted.insert unknown

/-- The URLs on their way to a dispatch. -/
def waiting (scheduler : CrawlScheduler) : List DiscoveredUrl :=
  scheduler.pending ++ scheduler.queue.heap.map PrioritizedUrl.url

theorem mem_waiting {discovered : DiscoveredUrl} :
    discovered ∈ scheduler.waiting ↔
      discovered ∈ scheduler.pending ∨
        discovered ∈ scheduler.queue.heap.map PrioritizedUrl.url :=
  List.mem_append

theorem waiting_push {url discovered : DiscoveredUrl} {source : UrlSource}
    (member : discovered ∈ (scheduler.push crates url source).waiting) :
    discovered ∈ scheduler.waiting ∨ discovered = url := by
  rcases push_cases crates scheduler url source with ⟨-, same⟩ | ⟨-, pushed⟩
  · exact .inl (same ▸ member)
  · rw [pushed] at member
    simp only [mem_waiting, List.map_cons, List.mem_cons] at member ⊢
    rcases member with pending | this | heap
    · exact .inl (.inl pending)
    · exact .inr this
    · exact .inl (.inr heap)

theorem mem_drainDiscovered {discovered : DiscoveredUrl} :
    discovered ∈ scheduler.drainDiscovered.pending ↔
      discovered ∈ scheduler.pending ∨
        discovered ∈ scheduler.queue.heap.map PrioritizedUrl.url := by
  simp only [drainDiscovered, UrlQueue.drainAll, List.mem_append, List.mem_map, MaxHeap.mem_drain]

theorem waiting_drainDiscovered {discovered : DiscoveredUrl} :
    discovered ∈ scheduler.drainDiscovered.waiting ↔ discovered ∈ scheduler.waiting := by
  rw [mem_waiting, mem_drainDiscovered, mem_waiting]
  simp [drainDiscovered, UrlQueue.drainAll]

/-! ### Handing out -/

/-- Entries already visited are dropped; the first new one is marked and handed out. -/
theorem takeUnvisited_cases (crates : UrlCrates) (scheduler : CrawlScheduler)
    (pending : List DiscoveredUrl) :
    ((∀ skipped ∈ pending, skipped.key crates ∈ scheduler.visited) ∧
      scheduler.takeUnvisited crates pending = ({ scheduler with pending := [] }, none)) ∨
    ∃ skipped discovered rest, pending = skipped ++ discovered :: rest ∧
      (∀ old ∈ skipped, old.key crates ∈ scheduler.visited) ∧
      discovered.key crates ∉ scheduler.visited ∧
      scheduler.takeUnvisited crates pending =
        ({ scheduler.visit crates discovered.url with pending := rest }, some discovered) := by
  induction pending with
  | nil => exact .inl ⟨by simp, rfl⟩
  | cons first rest ih =>
    by_cases known : first.key crates ∈ scheduler.visited
    · have skips : scheduler.takeUnvisited crates (first :: rest) =
          scheduler.takeUnvisited crates rest := by
        rw [takeUnvisited, recordVisit_known known]
      rw [skips]
      rcases ih with ⟨all, empty⟩ | ⟨skipped, discovered, later, split, old, new, handed⟩
      · exact .inl ⟨List.forall_mem_cons.mpr ⟨known, all⟩, empty⟩
      · exact .inr ⟨first :: skipped, discovered, later, by rw [split, List.cons_append],
          List.forall_mem_cons.mpr ⟨known, old⟩, new, handed⟩
    · refine .inr ⟨[], first, rest, rfl, by simp, known, ?_⟩
      rw [takeUnvisited, recordVisit_unknown known]

/-- `nextUrl` keeps everything at the concurrency limit, empties a buffer of visited URLs,
or hands out the first new one. -/
theorem nextUrl_cases {inFlight : Nat} {handed : Option DiscoveredUrl}
    (taken : scheduler.nextUrl crates inFlight = (next, handed)) :
    (handed = none ∧ next = scheduler) ∨
    (handed = none ∧ (∀ skipped ∈ scheduler.pending, skipped.key crates ∈ scheduler.visited) ∧
      next = { scheduler with pending := [] }) ∨
    ∃ skipped discovered rest, handed = some discovered ∧
      scheduler.pending = skipped ++ discovered :: rest ∧
      (∀ old ∈ skipped, old.key crates ∈ scheduler.visited) ∧
      discovered.key crates ∉ scheduler.visited ∧
      next = { scheduler.visit crates discovered.url with pending := rest } := by
  rw [nextUrl] at taken
  split at taken
  next =>
    rcases takeUnvisited_cases crates scheduler scheduler.pending with
      ⟨all, empty⟩ | ⟨skipped, discovered, rest, split, old, new, given⟩
    · rw [empty] at taken
      cases taken
      exact .inr (.inl ⟨rfl, all, rfl⟩)
    · rw [given] at taken
      cases taken
      exact .inr (.inr ⟨skipped, discovered, rest, rfl, split, old, new, rfl⟩)
  next =>
    cases taken
    exact .inl ⟨rfl, rfl⟩

theorem nextUrl_consistent {inFlight : Nat} {handed : Option DiscoveredUrl}
    (consistent : Consistent crates scheduler)
    (taken : scheduler.nextUrl crates inFlight = (next, handed)) : Consistent crates next := by
  rcases nextUrl_cases taken with
    ⟨-, rfl⟩ | ⟨-, -, rfl⟩ | ⟨skipped, discovered, rest, -, -, -, new, rfl⟩
  · exact consistent
  · exact ⟨consistent.visited, consistent.accepted⟩
  · have visited := visit_consistent consistent new
    exact ⟨visited.visited, visited.accepted⟩

theorem nextUrl_visitedUrls {inFlight : Nat} {handed : Option DiscoveredUrl}
    (taken : scheduler.nextUrl crates inFlight = (next, handed)) :
    next.visitedUrls = scheduler.visitedUrls ++ handed.toList.map DiscoveredUrl.url := by
  rcases nextUrl_cases taken with
    ⟨rfl, rfl⟩ | ⟨rfl, -, rfl⟩ | ⟨skipped, discovered, rest, rfl, -, -, -, rfl⟩
  · exact (List.append_nil _).symm
  · exact (List.append_nil _).symm
  · rfl

/-- What is handed out was waiting, and a hand-out lets nothing new in. -/
theorem nextUrl_waiting {inFlight : Nat} {handed : Option DiscoveredUrl}
    (taken : scheduler.nextUrl crates inFlight = (next, handed)) :
    (∀ discovered ∈ next.waiting, discovered ∈ scheduler.waiting) ∧
      ∀ discovered ∈ handed, discovered ∈ scheduler.waiting ∧
        discovered.key crates ∉ scheduler.visited := by
  rcases nextUrl_cases taken with
    ⟨rfl, rfl⟩ | ⟨rfl, -, rfl⟩ | ⟨skipped, this, rest, rfl, split, -, new, rfl⟩
  · exact ⟨fun _ member => member, by simp⟩
  · refine ⟨fun discovered member => ?_, by simp⟩
    exact List.mem_append_right _ (by simpa [waiting] using member)
  · constructor
    · intro discovered member
      rw [mem_waiting] at member ⊢
      rw [split]
      refine member.imp_left fun later => ?_
      exact List.mem_append_right _ (List.mem_cons_of_mem _ later)
    · rintro discovered ⟨⟩
      rw [mem_waiting, split]
      exact ⟨.inl (List.mem_append_right _ List.mem_cons_self), new⟩

end CrawlScheduler

/-! ### Links -/

theorem Task.move_pushLink {maxDepth : Nat} {site : SiteGraph} {cancelled : Bool} {task : Task}
    {move : TaskMove} {phase : TaskPhase} {pushed : DiscoveredUrl}
    (moved : task.move maxDepth site cancelled move = some (phase, .pushLink pushed)) :
    ∃ link links, task.phase = .linking (link :: links) ∧ pushed = ⟨link, task.url.depth + 1⟩ := by
  unfold Task.move Task.finishWith at moved
  split at moved
  -- every other move has another effect
  all_goals first
    | (cases moved; done)
    | (split at moved <;> cases moved)
    | skip
  next link links linking =>
    cases moved
    exact ⟨link, links, linking, rfl⟩

/-- The links a task holds are links of its page, and it holds some only below the depth
bound. -/
def Task.LinksOwn (maxDepth : Nat) (site : SiteGraph) (task : Task) : Prop :=
  ∀ links, task.phase = .linking links → ∀ link ∈ links,
    task.url.depth < maxDepth ∧ link ∈ site task.url.url

theorem Task.move_linksOwn {maxDepth : Nat} {site : SiteGraph} {cancelled : Bool} {task : Task}
    {move : TaskMove} {phase : TaskPhase} {effect : Effect} (own : task.LinksOwn maxDepth site)
    (moved : task.move maxDepth site cancelled move = some (phase, effect)) :
    Task.LinksOwn maxDepth site { task with phase } := by
  rintro links rfl link member
  unfold Task.move Task.finishWith at moved
  split at moved
  -- a task holds links once they are extracted, and while it pushes them
  all_goals first
    | (cases moved; done)
    | (split at moved <;> cases moved; done)
    | skip
  next parsed _ =>
    simp only [Option.some.injEq, Prod.mk.injEq, TaskPhase.linking.injEq] at moved
    rw [← moved.1] at member
    split at member
    next => cases member
    next gate =>
      simp only [Bool.or_eq_true, decide_eq_true_eq, not_or, Nat.not_le] at gate
      exact ⟨gate.1, member⟩
  next first rest linking =>
    cases moved
    exact own _ linking link (List.mem_cons_of_mem _ member)

/-! ### The scheduler over a run -/

namespace Engine

variable {crates} {config : CrawlerConfig} {site : SiteGraph}

variable (crates config) in
/-- What a restored scheduler holds comes from the checkpoint file, and its queue is empty. -/
theorem restoreCheckpointState_spec (engine : Engine) :
    (engine.restoreCheckpointState crates config).Consistent crates ∧
      (engine.restoreCheckpointState crates config).queue = .empty ∧
      (∀ url ∈ (engine.restoreCheckpointState crates config).visitedUrls,
        ∃ checkpoint, engine.file = some checkpoint ∧ url ∈ checkpoint.visited) ∧
      ∀ discovered ∈ (engine.restoreCheckpointState crates config).pending,
        discovered.depth = 0 ∧ ∃ checkpoint raw url, engine.checkpointState config = some checkpoint ∧
          raw ∈ checkpoint.queued ∧ crates.parse raw = some url ∧
          discovered.url = crates.render url := by
  rw [restoreCheckpointState]
  split
  next => exact ⟨CrawlScheduler.new_consistent _, rfl, by simp [CrawlScheduler.new],
    by simp [CrawlScheduler.new]⟩
  next checkpoint loaded =>
    have file : engine.file = some checkpoint := by
      rw [checkpointState] at loaded
      split at loaded
      · exact loaded
      · cases loaded
    have fresh : (CrawlScheduler.new config.concurrency).Consistent crates :=
      CrawlScheduler.new_consistent _
    obtain ⟨consistent, queue, pending, members, -⟩ :=
      CrawlScheduler.restoreVisited_spec checkpoint.visited fresh
    refine ⟨⟨consistent.visited, consistent.accepted⟩, queue, ?_, ?_⟩
    · intro url member
      exact ⟨checkpoint, file, (members url member).resolve_left (by simp [CrawlScheduler.new])⟩
    · intro discovered member
      -- the frontier is parsed anew and comes back at depth 0
      have none : (CrawlScheduler.new config.concurrency).pending = [] := rfl
      rw [CrawlScheduler.restorePending] at member
      simp only [pending, none, List.nil_append, List.mem_filterMap,
        Option.map_eq_some_iff] at member
      obtain ⟨raw, queued, url, parsed, rfl⟩ := member
      exact ⟨rfl, checkpoint, raw, url, loaded, queued, parsed, rfl⟩

/-- Every entry of a loaded visited list has its key among the restored ones. -/
theorem mem_restored_keys {engine : Engine} {checkpoint : CrawlCheckpoint} {url : String}
    (loaded : engine.checkpointState config = some checkpoint) (listed : url ∈ checkpoint.visited) :
    crates.canonicalKey url ∈
      (engine.restoreCheckpointState crates config).visitedUrls.map crates.canonicalKey := by
  have fresh : (CrawlScheduler.new config.concurrency).Consistent crates :=
    CrawlScheduler.new_consistent _
  obtain ⟨consistent, -, -, -, keys⟩ :=
    CrawlScheduler.restoreVisited_spec checkpoint.visited fresh
  rw [restoreCheckpointState, loaded]
  exact (consistent.visited.mem _).mp (keys url (.inr listed))

variable (crates config) in
/-- A new run pushes the seed, puts it into the pending buffer and pushes the extra seeds. -/
theorem begin_scheduler {motive : CrawlScheduler → Prop} (engine : Engine)
    (seeded : motive ((engine.restoreCheckpointState crates config).seed crates config.seedUrl))
    (pushed : ∀ scheduler url, motive scheduler → url ∈ config.extraSeeds →
      motive (scheduler.push crates url .sitemap)) :
    motive (engine.begin crates config).scheduler :=
  List.foldlRecOn config.extraSeeds _ seeded fun scheduler holds url member =>
    pushed scheduler url holds member

/-- The history that goes with the scheduler is untouched. -/
structure SameRun (engine next : Engine) : Prop where
  restored : next.restored = engine.restored
  requeued : next.requeued = engine.requeued
  dispatched : next.dispatched = engine.dispatched

theorem step_scheduler {engine next : Engine} {event : Event}
    (taken : Step crates config site engine event next) :
    (event = .start ∧ next = engine.begin crates config) ∨
    (SameRun engine next ∧ next.scheduler = engine.scheduler) ∨
    (SameRun engine next ∧ ∃ level, next.scheduler = { engine.scheduler with level }) ∨
    (SameRun engine next ∧ ∃ task ∈ engine.tasks, ∃ link links,
      task.phase = .linking (link :: links) ∧
      next.scheduler = engine.scheduler.push crates ⟨link, task.url.depth + 1⟩ .link) ∨
    (SameRun engine next ∧ next.scheduler = engine.scheduler.drainDiscovered) ∨
    ∃ inFlight handed, engine.scheduler.nextUrl crates inFlight = (next.scheduler, handed) ∧
      next.restored = engine.restored ∧ next.requeued = engine.requeued ∧
      next.dispatched = engine.dispatched ++ handed.toList := by
  cases event with
  | start =>
    simp only [Step, step, Option.ite_none_right_eq_some] at taken
    cases taken.2
    exact .inl ⟨rfl, rfl⟩
  | kill | signal | cancel =>
    cases taken
    exact .inr (.inl ⟨⟨rfl, rfl, rfl⟩, rfl⟩)
  | setLevel level =>
    cases taken
    exact .inr (.inr (.inl ⟨⟨rfl, rfl, rfl⟩, level, rfl⟩))
  | task index move =>
    obtain ⟨task, phase, effect, found, moved, rfl⟩ := taskStep_eq_some taken
    cases effect with
    | pushLink pushed =>
      -- of all effects of a task only a link reaches the scheduler
      obtain ⟨link, links, linking, rfl⟩ := Task.move_pushLink moved
      exact .inr (.inr (.inr (.inl ⟨⟨rfl, rfl, rfl⟩, task, List.mem_of_getElem? found, link, links,
        linking, rfl⟩)))
    | _ => exact .inr (.inl ⟨⟨rfl, rfl, rfl⟩, rfl⟩)
  | advance =>
    rcases advance_cases taken with
      ⟨-, rfl⟩ | ⟨collected, remaining, -, rfl⟩ | ⟨control, -, rfl⟩
    · exact .inr (.inr (.inr (.inr (.inl ⟨⟨rfl, rfl, rfl⟩, rfl⟩))))
    · rcases spawn_cases crates engine collected remaining with
        ended | ⟨scheduler, none, ended⟩ | ⟨left, scheduler, discovered, -, handed, spawned⟩
      · rw [ended]
        exact .inr (.inl ⟨⟨rfl, rfl, rfl⟩, rfl⟩)
      · rw [ended]
        -- a call that handed out nothing may still have dropped known URLs
        exact .inr (.inr (.inr (.inr (.inr
          ⟨_, .none, none, rfl, rfl, (List.append_nil _).symm⟩))))
      · rw [spawned]
        exact .inr (.inr (.inr (.inr (.inr ⟨_, some discovered, handed, rfl, rfl, rfl⟩))))
    · exact .inr (.inl ⟨⟨rfl, rfl, rfl⟩, rfl⟩)
  | join index =>
    obtain ⟨phase, task, -, -, -, rfl⟩ := join_eq_some taken
    exact .inr (.inl ⟨⟨rfl, rfl, rfl⟩, rfl⟩)
  | giveUp =>
    simp only [Step, step, Option.ite_none_right_eq_some] at taken
    cases taken.2
    exact .inr (.inl ⟨⟨rfl, rfl, rfl⟩, rfl⟩)
  | abort index =>
    obtain ⟨task, -, -, -, rfl⟩ := abort_eq_some taken
    exact .inr (.inl ⟨⟨rfl, rfl, rfl⟩, rfl⟩)
  | persisted written =>
    obtain ⟨state, after, -, rfl⟩ := persisted_eq_some taken
    exact .inr (.inl ⟨⟨rfl, rfl, rfl⟩, rfl⟩)

/-- Every task of the join set was there before, moved or ended in its place at most, or is
the one just spawned. -/
theorem step_tasks {engine next : Engine} {event : Event}
    (taken : Step crates config site engine event next) :
    ∀ task ∈ next.tasks,
      (∃ before ∈ engine.tasks, before.url = task.url ∧ engine.dispatched <+: next.dispatched ∧
        (before = task ∨ hasEnded task = true ∨ ∃ cancelled move effect,
          before.move config.maxDepth site cancelled move = some (task.phase, effect))) ∨
      task.phase = .pacing ∧ next.dispatched = engine.dispatched ++ [task.url] := by
  intro task member
  -- most steps leave the join set and the hand-outs as they are
  have kept : task ∈ engine.tasks → engine.dispatched = next.dispatched →
      ∃ before ∈ engine.tasks, before.url = task.url ∧ engine.dispatched <+: next.dispatched ∧
        (before = task ∨ hasEnded task = true ∨ ∃ cancelled move effect,
          before.move config.maxDepth site cancelled move = some (task.phase, effect)) :=
    fun old same => ⟨task, old, rfl, same ▸ List.prefix_refl _, .inl rfl⟩
  cases event with
  | start =>
    simp only [Step, step, Option.ite_none_right_eq_some] at taken
    cases taken.2
    cases member
  | kill =>
    cases taken
    cases member
  | signal | cancel | setLevel _ =>
    cases taken
    exact .inl (kept member rfl)
  | task index move =>
    obtain ⟨moved, phase, effect, found, step, rfl⟩ := taskStep_eq_some taken
    have dispatched :=
      perform_dispatched crates (engine.setPhase index moved phase) moved effect
    have tasks : task ∈ engine.tasks.set index { moved with phase } := by
      cases effect <;> exact member
    rcases List.mem_or_eq_of_mem_set tasks with old | rfl
    · exact .inl (kept old dispatched.symm)
    · exact .inl ⟨moved, List.mem_of_getElem? found, rfl, dispatched ▸ List.prefix_refl _,
        .inr (.inr ⟨engine.cancelled, move, effect, step⟩)⟩
  | advance =>
    rcases advance_cases taken with
      ⟨-, rfl⟩ | ⟨collected, remaining, -, rfl⟩ | ⟨control, -, rfl⟩
    · exact .inl (kept member rfl)
    · rcases spawn_cases crates engine collected remaining with
        ended | ⟨scheduler, -, ended⟩ | ⟨left, scheduler, discovered, -, -, spawned⟩
      · rw [ended] at kept member ⊢
        exact .inl (kept member rfl)
      · rw [ended] at kept member ⊢
        exact .inl (kept member rfl)
      · rw [spawned] at member ⊢
        rcases List.mem_append.mp member with old | new
        · exact .inl ⟨task, old, rfl, List.prefix_append _ _, .inl rfl⟩
        · cases List.mem_singleton.mp new
          exact .inr ⟨rfl, rfl⟩
    · exact .inl (kept member rfl)
  | join index =>
    obtain ⟨phase, joined, -, -, -, rfl⟩ := join_eq_some taken
    exact .inl (kept (List.mem_of_mem_eraseIdx member) rfl)
  | giveUp =>
    simp only [Step, step, Option.ite_none_right_eq_some] at taken
    cases taken.2
    exact .inl (kept member rfl)
  | abort index =>
    obtain ⟨aborted, -, found, -, rfl⟩ := abort_eq_some taken
    rcases List.mem_or_eq_of_mem_set member with old | rfl
    · exact .inl (kept old rfl)
    · exact .inl ⟨aborted, List.mem_of_getElem? found, rfl, List.prefix_refl _, .inr (.inl rfl)⟩
  | persisted written =>
    obtain ⟨state, after, -, rfl⟩ := persisted_eq_some taken
    exact .inl (kept member rfl)

variable (crates) in
/-- The visited set is what the run restored, then what it dispatched. -/
structure Tracked (engine : Engine) : Prop where
  consistent : engine.scheduler.Consistent crates
  history : engine.scheduler.visitedUrls =
    engine.restored ++ engine.dispatched.map DiscoveredUrl.url

theorem initial_tracked : Tracked crates (Engine.initial config) where
  consistent := CrawlScheduler.new_consistent _
  history := rfl

theorem begin_tracked (engine : Engine) : Tracked crates (engine.begin crates config) := by
  obtain ⟨consistent, -, -, -⟩ := restoreCheckpointState_spec crates config engine
  have seeded := CrawlScheduler.push_consistent ⟨config.seedUrl, 0⟩ .seed consistent
  have both := begin_scheduler crates config engine
    (motive := fun scheduler => scheduler.Consistent crates ∧ scheduler.visitedUrls =
      (engine.restoreCheckpointState crates config).visitedUrls)
    ⟨⟨seeded.visited, seeded.accepted⟩, rfl⟩
    fun scheduler url ⟨kept, same⟩ _ =>
      ⟨CrawlScheduler.push_consistent url .sitemap kept, same⟩
  exact ⟨both.1, both.2.trans (List.append_nil _).symm⟩

theorem step_tracked {engine next : Engine} {event : Event} (tracked : Tracked crates engine)
    (taken : Step crates config site engine event next) : Tracked crates next := by
  obtain ⟨consistent, history⟩ := tracked
  rcases step_scheduler taken with
    ⟨-, rfl⟩ | ⟨run, same⟩ | ⟨run, level, levelled⟩ | ⟨run, _, _, link, _, _, pushed⟩ |
      ⟨run, drained⟩ | ⟨inFlight, handed, given, restored, -, dispatched⟩
  · exact begin_tracked engine
  · exact ⟨same ▸ consistent, by rw [same, run.restored, run.dispatched, history]⟩
  · refine ⟨?_, ?_⟩
    · rw [levelled]
      exact ⟨consistent.visited, consistent.accepted⟩
    · rw [levelled, run.restored, run.dispatched]
      exact history
  · refine ⟨pushed ▸ CrawlScheduler.push_consistent _ .link consistent, ?_⟩
    rw [pushed, run.restored, run.dispatched]
    exact history
  · refine ⟨?_, ?_⟩
    · rw [drained]
      exact ⟨consistent.visited, consistent.accepted⟩
    · rw [drained, run.restored, run.dispatched]
      exact history
  · refine ⟨CrawlScheduler.nextUrl_consistent consistent given, ?_⟩
    rw [CrawlScheduler.nextUrl_visitedUrls given, restored, dispatched, history, List.map_append,
      List.append_assoc]

theorem reached_tracked {guard : Engine → Event → Prop} {start engine : Engine}
    (startTracked : Tracked crates start)
    (reached : Reachable (Step crates config site) guard start engine) :
    Tracked crates engine :=
  reached.invariant startTracked fun _ _ _ tracked _ taken => step_tracked tracked taken

/-- A run hands out no key twice, and none that it restored as visited. -/
theorem Tracked.dispatched_distinct {engine : Engine} (tracked : Tracked crates engine) :
    (engine.dispatched.map (DiscoveredUrl.key crates)).Nodup ∧
      ∀ discovered ∈ engine.dispatched,
        discovered.key crates ∉ engine.restored.map crates.canonicalKey := by
  have distinct := tracked.consistent.visited.distinct
  rw [CrawlScheduler.visitedKeys, tracked.history, List.map_append, List.map_map] at distinct
  obtain ⟨-, dispatched, apart⟩ := List.nodup_append.mp distinct
  exact ⟨dispatched, fun discovered member restored =>
    apart _ restored _ (List.mem_map_of_mem member) rfl⟩

/-- A run that resumes from a checkpoint never hands out a page the checkpoint lists as
visited, under any spelling. -/
theorem resumed_skips_visited {start engine : Engine} {checkpoint : CrawlCheckpoint} {url : String}
    (loaded : start.checkpointState config = some checkpoint) (listed : url ∈ checkpoint.visited)
    (reached : Reachable (Step crates config site) (fun _ event => event ≠ .start)
      (start.begin crates config) engine) :
    ∀ discovered ∈ engine.dispatched, discovered.key crates ≠ crates.canonicalKey url := by
  have kept : engine.restored = (start.begin crates config).restored := by
    refine reached.invariant
      (motive := fun engine => engine.restored = (start.begin crates config).restored) rfl ?_
    intro engine event next same noStart taken
    rcases step_scheduler taken with
      ⟨restart, -⟩ | ⟨run, -⟩ | ⟨run, -⟩ | ⟨run, -⟩ | ⟨run, -⟩ | ⟨_, _, -, restored, -⟩
    · exact absurd restart noStart
    all_goals first
      | rw [run.restored, same]
      | rw [restored, same]
  intro discovered member same
  have apart := (reached_tracked (begin_tracked start) reached).dispatched_distinct.2 _ member
  rw [kept, same] at apart
  exact apart (mem_restored_keys loaded listed)

end Engine

end Webfang.Crawler
