import Mathlib.Data.List.Dedup
import Webfang.Domain.UrlValidation
import Webfang.Library.MaxHeap

/-!
# URL queue and scheduler

The shared discovery queue (`infrastructure/crawler/url_queue.rs`), the visited set
(`application/deduplicator.rs`) and the scheduling policy over both
(`application/crawler/crawl_scheduler.rs`). Both dedup sets hold hashes of canonical keys;
the hash is taken to be injective, so the sets hold the keys themselves.
-/
namespace Webfang.Crawler

open Library Domain

/-- A URL handed from discovery to dispatch. Its parent and content type decide nothing. -/
structure DiscoveredUrl where
  url : String
  depth : Nat
  deriving DecidableEq, Repr

inductive UrlSource where
  | seed
  | sitemap
  | link
  deriving DecidableEq, Repr

structure PrioritizedUrl where
  url : DiscoveredUrl
  priority : Nat
  deriving DecidableEq, Repr

def UrlSource.basePriority : UrlSource → Nat
  | .seed => 1000
  | .sitemap => 500
  | .link => 200

def PrioritizedUrl.fromSource (url : DiscoveredUrl) (source : UrlSource) : PrioritizedUrl :=
  ⟨url, max (source.basePriority - url.depth * 10) 1⟩

/-- The heap order: by priority, then the smaller URL on top. -/
def PrioritizedUrl.le (a b : PrioritizedUrl) : Bool :=
  a.priority < b.priority || (a.priority == b.priority && !(a.url.url < b.url.url))

structure UrlQueue where
  heap : List PrioritizedUrl
  seen : Std.ExtTreeSet String
  /-- Every URL a push accepted, oldest first. -/
  accepted : List DiscoveredUrl

def UrlQueue.empty : UrlQueue := ⟨[], ∅, []⟩

namespace UrlQueue

/-- `false` when the canonical key was seen before. -/
def pushPrioritized (crates : UrlCrates) (queue : UrlQueue) (url : DiscoveredUrl)
    (source : UrlSource) : UrlQueue × Bool :=
  let canonical := crates.canonicalKey url.url
  if queue.seen.contains canonical then (queue, false)
  else
    ({ heap := .fromSource url source :: queue.heap
       seen := queue.seen.insert canonical
       accepted := queue.accepted ++ [url] }, true)

def pop (queue : UrlQueue) : UrlQueue × Option DiscoveredUrl :=
  match MaxHeap.popMax PrioritizedUrl.le queue.heap with
  | none => (queue, none)
  | some (top, below) => ({ queue with heap := below }, some top.url)

def drainAll (queue : UrlQueue) : UrlQueue × List DiscoveredUrl :=
  ({ queue with heap := [] },
    (MaxHeap.drain PrioritizedUrl.le queue.heap).map PrioritizedUrl.url)

/-- The `n` URLs that would be popped next. What was popped goes back into the heap. -/
def snapshotUrlsBounded (queue : UrlQueue) (n : Nat) : List String :=
  (MaxHeap.popMany PrioritizedUrl.le n queue.heap).1.map fun prioritized => prioritized.url.url

end UrlQueue

inductive ConcurrencyLevel where
  | normal
  | reduced
  | critical
  deriving DecidableEq, Repr

def ConcurrencyLevel.effectiveConcurrency (base : Nat) : ConcurrencyLevel → Nat
  | .normal => base
  | .reduced => base / 2
  | .critical => 0

structure CrawlScheduler where
  visited : Std.ExtTreeSet String
  /-- The URLs of the visited set as they were spelled, for the checkpoint. -/
  visitedUrls : List String
  queue : UrlQueue
  pending : List DiscoveredUrl
  baseConcurrency : Nat
  /-- The autoscale level; `normal` also where autoscaling is off. -/
  level : ConcurrencyLevel

namespace CrawlScheduler

variable (crates : UrlCrates)

def new (baseConcurrency : Nat) : CrawlScheduler :=
  ⟨∅, [], .empty, [], baseConcurrency, .normal⟩

/-- `true` when the URL was not visited before. -/
def recordVisit (scheduler : CrawlScheduler) (url : String) : CrawlScheduler × Bool :=
  let canonical := crates.canonicalKey url
  if scheduler.visited.contains canonical then (scheduler, false)
  else
    ({ scheduler with
       visited := scheduler.visited.insert canonical
       visitedUrls := scheduler.visitedUrls ++ [url] }, true)

def restoreVisited (scheduler : CrawlScheduler) (urls : List String) : CrawlScheduler :=
  urls.foldl (fun scheduler url => (scheduler.recordVisit crates url).1) scheduler

/-- The restored frontier comes back at depth 0; an unparsable entry is dropped. -/
def restorePending (scheduler : CrawlScheduler) (urls : List String) : CrawlScheduler :=
  { scheduler with
    pending := scheduler.pending ++ urls.filterMap fun raw =>
      (crates.parse raw).map fun url => ⟨crates.render url, 0⟩ }

def push (scheduler : CrawlScheduler) (url : DiscoveredUrl) (source : UrlSource) :
    CrawlScheduler :=
  { scheduler with queue := (scheduler.queue.pushPrioritized crates url source).1 }

/-- The seed goes to the queue, for its dedup set, and straight to the pending buffer. -/
def seed (scheduler : CrawlScheduler) (seedUrl : String) : CrawlScheduler :=
  let pushed := scheduler.push crates ⟨seedUrl, 0⟩ .seed
  { pushed with pending := pushed.pending ++ [⟨seedUrl, 0⟩] }

def drainDiscovered (scheduler : CrawlScheduler) : CrawlScheduler :=
  { scheduler with
    queue := scheduler.queue.drainAll.1
    pending := scheduler.pending ++ scheduler.queue.drainAll.2 }

def hasPendingWork (scheduler : CrawlScheduler) : Bool := !scheduler.pending.isEmpty

def effectiveConcurrency (scheduler : CrawlScheduler) : Nat :=
  scheduler.level.effectiveConcurrency scheduler.baseConcurrency

def canSpawn (scheduler : CrawlScheduler) (inFlight : Nat) : Bool :=
  inFlight < scheduler.effectiveConcurrency

/-- Pop until a URL is new to the visited set. -/
def takeUnvisited (scheduler : CrawlScheduler) : List DiscoveredUrl →
    CrawlScheduler × Option DiscoveredUrl
  | [] => ({ scheduler with pending := [] }, none)
  | discovered :: rest =>
    match scheduler.recordVisit crates discovered.url with
    | (scheduler, true) => ({ scheduler with pending := rest }, some discovered)
    | (scheduler, false) => scheduler.takeUnvisited rest

def nextUrl (scheduler : CrawlScheduler) (inFlight : Nat) :
    CrawlScheduler × Option DiscoveredUrl :=
  if scheduler.canSpawn inFlight then scheduler.takeUnvisited crates scheduler.pending
  else (scheduler, none)

/-- The pending buffer first, then what fits of the queue, cut to the budget. -/
def snapshotPendingBounded (scheduler : CrawlScheduler) (budget : Nat) : List String :=
  let urls := scheduler.pending.map DiscoveredUrl.url
  (urls ++ scheduler.queue.snapshotUrlsBounded (budget - urls.length)).take budget

end CrawlScheduler

end Webfang.Crawler

/-! ### The bounded frontier of a checkpoint

`snapshot_pending_bounded` cuts the pending buffer and the queue behind it to the page budget. It
does not look at the visited set, and the two may hold one URL twice. -/

namespace Webfang.Crawler

open Library Domain

namespace CrawlScheduler

variable (crates : UrlCrates) (scheduler : CrawlScheduler) (budget : Nat)

/-- The URLs that wait for their dispatch, in the buffer or in the queue. -/
def frontier : List String :=
  scheduler.pending.map DiscoveredUrl.url ++
    scheduler.queue.heap.map fun prioritized => prioritized.url.url

/-- The keys that the crawl can still reach, each once. -/
def reachableKeys : List String :=
  ((scheduler.frontier.map crates.canonicalKey).filter fun key => !scheduler.visited.contains key).dedup

/-- The snapshot holds as many URLs as the budget and the frontier allow, and all of them count. -/
structure SnapshotsFrontier : Prop where
  count : (scheduler.snapshotPendingBounded budget).length =
    min budget (scheduler.reachableKeys crates).length
  waits : ∀ url ∈ scheduler.snapshotPendingBounded budget, url ∈ scheduler.frontier
  unvisited : ∀ url ∈ scheduler.snapshotPendingBounded budget,
    scheduler.visited.contains (crates.canonicalKey url) = false
  distinct : ((scheduler.snapshotPendingBounded budget).map crates.canonicalKey).Nodup

/-- The frontier in the order in which the crawl comes to it: the pending buffer, then the queue by
priority. -/
def line : List String :=
  scheduler.pending.map DiscoveredUrl.url ++
    (MaxHeap.drain PrioritizedUrl.le scheduler.queue.heap).map fun prioritized => prioritized.url.url

/-- No URL was visited before, and none has the key of one in front of it. -/
def Fresh (urls : List String) : Prop :=
  (∀ url ∈ urls, scheduler.visited.contains (crates.canonicalKey url) = false) ∧
    (urls.map crates.canonicalKey).Nodup

variable {crates scheduler budget}

theorem snapshotPendingBounded_eq_take (scheduler : CrawlScheduler) (budget : Nat) :
    scheduler.snapshotPendingBounded budget = scheduler.line.take budget := by
  simp only [snapshotPendingBounded, UrlQueue.snapshotUrlsBounded, MaxHeap.popMany_eq_take_drain, line,
    List.take_append, List.map_take, List.take_take, Nat.min_self]

theorem line_perm (scheduler : CrawlScheduler) : scheduler.line.Perm scheduler.frontier :=
  (MaxHeap.drain_perm scheduler.queue.heap).map _ |>.append_left _

theorem mem_reachableKeys {key : String} :
    key ∈ scheduler.reachableKeys crates ↔
      (∃ url ∈ scheduler.frontier, crates.canonicalKey url = key) ∧
        scheduler.visited.contains key = false := by
  rw [reachableKeys, List.mem_dedup, List.mem_filter, List.mem_map, Bool.not_eq_true']

theorem reachableKeys_length_le (crates : UrlCrates) (scheduler : CrawlScheduler) :
    (scheduler.reachableKeys crates).length ≤ scheduler.line.length := by
  calc (scheduler.reachableKeys crates).length
      ≤ ((scheduler.frontier.map crates.canonicalKey).filter fun key =>
          !scheduler.visited.contains key).length := (List.dedup_sublist _).length_le
    _ ≤ (scheduler.frontier.map crates.canonicalKey).length := List.length_filter_le _ _
    _ = scheduler.frontier.length := List.length_map _
    _ = scheduler.line.length := scheduler.line_perm.length_eq.symm

namespace SeededTwice

def seeded : CrawlScheduler :=
  ((CrawlScheduler.new 4).seed plainUrls "https://example.com/").push plainUrls
    ⟨"https://example.com/a", 1⟩ .link

end SeededTwice

end CrawlScheduler

end Webfang.Crawler
