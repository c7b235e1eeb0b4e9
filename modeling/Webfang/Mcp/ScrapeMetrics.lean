import Webfang.Library.KeyTable
import Webfang.Library.Window

/-!
# Scrape metrics

`ScrapeMetrics` counts the scrapes of a process, in total, by domain, by tool and by both.
Past their caps the two breakdowns by domain fold new domains into one overflow key, each at
its own time. Durations are kept in rings, one for the process and one for every cell.
-/
namespace Webfang.Mcp

open Library KeyTable

/-! ### Durations -/

def durationSampleCapacity : Nat := 1024

def toolDomainDurationCapacity : Nat := 32

/-- `DurationReservoir`. Durations are whole milliseconds. -/
structure DurationReservoir where
  samples : List Nat
  /-- The next slot to overwrite, once the samples are full. -/
  next : Nat
  observed : Nat
  capacity : Nat

structure DurationPercentiles where
  p50Ms : Option Nat
  p95Ms : Option Nat
  p99Ms : Option Nat
  samples : Nat
  capacity : Nat
  observed : Nat
  truncated : Bool

def DurationPercentiles.empty : DurationPercentiles :=
  { p50Ms := none, p95Ms := none, p99Ms := none
    samples := 0, capacity := 0, observed := 0, truncated := false }

namespace DurationReservoir

def withCapacity (capacity : Nat) : DurationReservoir :=
  { samples := [], next := 0, observed := 0, capacity := Nat.max capacity 1 }

def record (reservoir : DurationReservoir) (durationMs : Nat) : DurationReservoir :=
  if reservoir.samples.length < reservoir.capacity then
    { reservoir with
      samples := reservoir.samples ++ [durationMs]
      observed := reservoir.observed + 1 }
  else
    { reservoir with
      samples := reservoir.samples.set reservoir.next durationMs
      next := (reservoir.next + 1) % reservoir.capacity
      observed := reservoir.observed + 1 }

def sortedSamples (reservoir : DurationReservoir) : List Nat :=
  reservoir.samples.mergeSort fun a b => decide (a ≤ b)

/-- `DurationReservoir::nearest_rank`. A rank past the samples would be a panic. -/
def nearestRank (sorted : List Nat) (p n : Nat) : Option Nat :=
  if n = 0 then none
  else
    let rank := Nat.min (Nat.max ((p * n + 99) / 100) 1) n
    sorted[rank - 1]?

def percentiles (reservoir : DurationReservoir) : DurationPercentiles :=
  let sorted := reservoir.sortedSamples
  let n := sorted.length
  { p50Ms := nearestRank sorted 50 n
    p95Ms := nearestRank sorted 95 n
    p99Ms := nearestRank sorted 99 n
    samples := n
    capacity := reservoir.capacity
    observed := reservoir.observed
    truncated := decide (n < reservoir.observed) }

end DurationReservoir

/-! ### Events and counters -/

def maxTrackedDomains : Nat := 500

def overflowDomainKey : String := "otros"

def maxTrackedToolDomainPairs : Nat := 512

inductive Outcome where
  | success
  | error
  | partial_
  deriving DecidableEq

/-- `ScrapeEvent`. The duration is in nanoseconds. -/
structure ScrapeEvent where
  tool : String
  domain : String
  outcome : Outcome
  count : Nat
  duration : Nat

namespace ScrapeEvent

/-- `event.duration.as_millis() as u64`. -/
def durationMs (event : ScrapeEvent) : Nat := event.duration / 1000000 % 2 ^ 64

/-- `matches!(event.outcome, Outcome::Error | Outcome::Partial)`. -/
def failed (event : ScrapeEvent) : Bool := event.outcome = .error || event.outcome = .partial_

end ScrapeEvent

structure DomainStats where
  events : Nat
  pages : Nat
  errors : Nat

structure ToolDomainCounters where
  events : Nat
  pages : Nat
  errors : Nat

def DomainStats.default : DomainStats := { events := 0, pages := 0, errors := 0 }

def ToolDomainCounters.default : ToolDomainCounters := { events := 0, pages := 0, errors := 0 }

def DomainStats.add (stats : DomainStats) (event : ScrapeEvent) : DomainStats :=
  { events := stats.events + 1
    pages := stats.pages + event.count
    errors := if event.failed then stats.errors + 1 else stats.errors }

def ToolDomainCounters.add (counters : ToolDomainCounters) (event : ScrapeEvent) : ToolDomainCounters :=
  { events := counters.events + 1
    pages := counters.pages + event.count
    errors := if event.failed then counters.errors + 1 else counters.errors }

structure ToolDomainStats where
  events : Nat
  pages : Nat
  errors : Nat
  durationPercentiles : DurationPercentiles

def ToolDomainStats.new (counters : ToolDomainCounters) (durationPercentiles : DurationPercentiles) :
    ToolDomainStats :=
  { events := counters.events, pages := counters.pages, errors := counters.errors, durationPercentiles }

/-! ### The accumulator -/

structure ScrapeMetrics where
  totalEvents : Nat
  successCount : Nat
  errorCount : Nat
  partialCount : Nat
  domains : KeyTable String DomainStats
  tools : KeyTable String Nat
  toolDomains : KeyTable String (KeyTable String ToolDomainCounters)
  toolDomainDurations : KeyTable String (KeyTable String DurationReservoir)
  /-- The count of occupied cells. -/
  toolDomainPairs : Nat
  durations : DurationReservoir

structure MetricsSnapshot where
  totalEvents : Nat
  successCount : Nat
  errorCount : Nat
  partialCount : Nat
  domains : KeyTable String DomainStats
  tools : KeyTable String Nat
  durationPercentiles : DurationPercentiles
  toolDomains : KeyTable String (KeyTable String ToolDomainStats)

namespace ScrapeMetrics

def default : ScrapeMetrics :=
  { totalEvents := 0
    successCount := 0
    errorCount := 0
    partialCount := 0
    domains := .empty
    tools := .empty
    toolDomains := .empty
    toolDomainDurations := .empty
    toolDomainPairs := 0
    durations := .withCapacity durationSampleCapacity }

def countOutcome (metrics : ScrapeMetrics) (outcome : Outcome) : ScrapeMetrics :=
  let metrics := { metrics with totalEvents := metrics.totalEvents + 1 }
  match outcome with
  | .success => { metrics with successCount := metrics.successCount + 1 }
  | .error => { metrics with errorCount := metrics.errorCount + 1 }
  | .partial_ => { metrics with partialCount := metrics.partialCount + 1 }

def resolveDomainKey (metrics : ScrapeMetrics) (domain : String) : String :=
  if metrics.domains.contains domain ∨ metrics.domains.size < maxTrackedDomains then domain
  else overflowDomainKey

/-- Whether a cell is tracked, as both functions on cells ask. -/
def tracked (metrics : ScrapeMetrics) (tool key : String) : Bool :=
  (metrics.toolDomains.get tool).any fun perTool => perTool.contains key

def resolveToolDomainKey (metrics : ScrapeMetrics) (tool domainKey : String) : String :=
  if metrics.tracked tool domainKey ∨ metrics.toolDomainPairs < maxTrackedToolDomainPairs then domainKey
  else overflowDomainKey

def recordToolDomain (metrics : ScrapeMetrics) (tool domainKey : String) (event : ScrapeEvent)
    (durationMs : Nat) : ScrapeMetrics :=
  let key := metrics.resolveToolDomainKey tool domainKey
  let isNewCell := !metrics.tracked tool key
  { metrics with
    toolDomainPairs := if isNewCell then metrics.toolDomainPairs + 1 else metrics.toolDomainPairs
    toolDomains := metrics.toolDomains.modifyCell tool key .default fun counters => counters.add event
    toolDomainDurations :=
      metrics.toolDomainDurations.modifyCell tool key (.withCapacity toolDomainDurationCapacity)
        fun reservoir => reservoir.record durationMs }

def record (metrics : ScrapeMetrics) (event : ScrapeEvent) : ScrapeMetrics :=
  let durationMs := event.durationMs
  let metrics := metrics.countOutcome event.outcome
  let domainKey := metrics.resolveDomainKey event.domain
  let metrics :=
    { metrics with
      domains := metrics.domains.modify domainKey .default fun domain => domain.add event
      tools := metrics.tools.modify event.tool 0 fun events => events + 1
      durations := metrics.durations.record durationMs }
  metrics.recordToolDomain event.tool domainKey event durationMs

def projectToolDomains (metrics : ScrapeMetrics) : KeyTable String (KeyTable String ToolDomainStats) :=
  metrics.toolDomains.mapValues fun tool perTool =>
    perTool.mapValues fun domain counters =>
      let percentiles :=
        (metrics.toolDomainDurations.cell tool domain).elim .empty DurationReservoir.percentiles
      .new counters percentiles

def snapshot (metrics : ScrapeMetrics) : MetricsSnapshot :=
  { totalEvents := metrics.totalEvents
    successCount := metrics.successCount
    errorCount := metrics.errorCount
    partialCount := metrics.partialCount
    domains := metrics.domains
    tools := metrics.tools
    durationPercentiles := metrics.durations.percentiles
    toolDomains := metrics.projectToolDomains }

end ScrapeMetrics

/-! ### The reservoir -/

namespace DurationReservoir

variable {capacity p durationMs : Nat} {recorded window sorted : List Nat} {reservoir : DurationReservoir}

structure Retains (capacity : Nat) (recorded : List Nat) (reservoir : DurationReservoir) : Prop where
  ring : Ring.Holds capacity recorded reservoir.samples reservoir.next
  observed : reservoir.observed = recorded.length
  limit : reservoir.capacity = capacity

theorem Retains.new (pos : 0 < capacity) : Retains capacity [] (withCapacity capacity) where
  ring := .empty pos
  observed := rfl
  limit := Nat.max_eq_left pos

theorem record_eq (reservoir : DurationReservoir) (durationMs : Nat) :
    reservoir.record durationMs =
      { samples := (Ring.write reservoir.capacity reservoir.samples reservoir.next durationMs).1
        next := (Ring.write reservoir.capacity reservoir.samples reservoir.next durationMs).2
        observed := reservoir.observed + 1
        capacity := reservoir.capacity } := by
  unfold record Ring.write
  split <;> rfl

theorem Retains.record (held : Retains capacity recorded reservoir) :
    Retains capacity (recorded ++ [durationMs]) (reservoir.record durationMs) := by
  rw [record_eq, held.limit]
  exact ⟨held.ring.write, by simp [held.observed], rfl⟩

theorem Retains.foldl (held : Retains capacity recorded reservoir) (later : List Nat) :
    Retains capacity (recorded ++ later) (later.foldl DurationReservoir.record reservoir) := by
  induction later generalizing recorded reservoir with
  | nil => simpa using held
  | cons first rest ih =>
    have grown : Retains capacity (recorded ++ [first]) (reservoir.record first) := held.record
    simpa using ih grown

/-- The nearest-rank percentile of a window: the value of rank `p * n / 100`, rounded up. -/
def NearestRank (window : List Nat) (p : Nat) : Option Nat → Prop
  | none => window = []
  | some value =>
    ∃ rank, p * window.length ≤ 100 * rank ∧ 100 * rank < p * window.length + 100 ∧ IsRanked window rank value

theorem nearestRank_spec (sort : sorted.Pairwise (· ≤ ·)) (same : sorted.Perm window) (pos : 0 < p)
    (most : p ≤ 100) :
    NearestRank window p (nearestRank sorted p sorted.length) := by
  unfold nearestRank
  by_cases none : sorted.length = 0
  · rw [if_pos none]
    obtain rfl := List.eq_nil_of_length_eq_zero none
    exact same.nil_eq.symm
  · rw [if_neg none]
    -- the rank is within the samples without the clamp
    have lower : 0 < p * sorted.length := Nat.mul_pos pos (Nat.pos_of_ne_zero none)
    have upper : p * sorted.length ≤ 100 * sorted.length := Nat.mul_le_mul_right _ most
    have clamp : Nat.min (Nat.max ((p * sorted.length + 99) / 100) 1) sorted.length =
        (p * sorted.length + 99) / 100 - 1 + 1 := by
      simp only [Nat.min_def, Nat.max_def]
      split <;> split <;> omega
    have inside : (p * sorted.length + 99) / 100 - 1 < sorted.length := by omega
    simp only [clamp, Nat.add_sub_cancel, List.getElem?_eq_getElem inside]
    refine ⟨(p * sorted.length + 99) / 100 - 1 + 1, ?_, ?_, ?_⟩
    · rw [← same.length_eq]
      omega
    · rw [← same.length_eq]
      omega
    · exact (IsRanked.of_sorted sort (List.getElem?_eq_getElem inside)).perm same

/-- The percentiles of the last of the durations recorded, and what to read them by. -/
structure Published (capacity : Nat) (recorded : List Nat) (published : DurationPercentiles) : Prop where
  p50 : NearestRank (Ring.window capacity recorded) 50 published.p50Ms
  p95 : NearestRank (Ring.window capacity recorded) 95 published.p95Ms
  p99 : NearestRank (Ring.window capacity recorded) 99 published.p99Ms
  samples : published.samples = min recorded.length capacity
  limit : published.capacity = capacity
  observed : published.observed = recorded.length
  truncated : published.truncated = true ↔ capacity < recorded.length

theorem Retains.published (held : Retains capacity recorded reservoir) :
    Published capacity recorded reservoir.percentiles := by
  have same : reservoir.sortedSamples.Perm (Ring.window capacity recorded) :=
    (List.mergeSort_perm _ _).trans held.ring.perm
  have sort : reservoir.sortedSamples.Pairwise (· ≤ ·) := by
    have ordered : reservoir.sortedSamples.Pairwise fun a b => decide (a ≤ b) = true :=
      List.pairwise_mergeSort (fun a b c ab bc => by simp at ab bc ⊢; omega) (fun a b => by simp; omega) _
    simpa using ordered
  have length : reservoir.sortedSamples.length = min recorded.length capacity :=
    same.length_eq.trans Ring.length_window
  refine
    { p50 := nearestRank_spec sort same (by decide) (by decide)
      p95 := nearestRank_spec sort same (by decide) (by decide)
      p99 := nearestRank_spec sort same (by decide) (by decide)
      samples := length
      limit := held.limit
      observed := held.observed
      truncated := ?_ }
  simp only [percentiles, decide_eq_true_eq, length, held.observed]
  omega

end DurationReservoir

/-! ### One event -/

/-- The three counts that the breakdowns keep. -/
inductive Counter where
  | events
  | pages
  | errors

def ScrapeEvent.adds (event : ScrapeEvent) : Counter → Nat
  | .events => 1
  | .pages => event.count
  | .errors => if event.failed then 1 else 0

def DomainStats.read (stats : DomainStats) : Counter → Nat
  | .events => stats.events
  | .pages => stats.pages
  | .errors => stats.errors

def ToolDomainCounters.read (counters : ToolDomainCounters) : Counter → Nat
  | .events => counters.events
  | .pages => counters.pages
  | .errors => counters.errors

@[simp] theorem DomainStats.read_default (counter : Counter) : DomainStats.default.read counter = 0 := by
  cases counter <;> rfl

@[simp] theorem ToolDomainCounters.read_default (counter : Counter) :
    ToolDomainCounters.default.read counter = 0 := by
  cases counter <;> rfl

@[simp] theorem DomainStats.read_add (stats : DomainStats) (event : ScrapeEvent) (counter : Counter) :
    (stats.add event).read counter = stats.read counter + event.adds counter := by
  cases counter with
  | events => rfl
  | pages => rfl
  | errors => simp only [add, read, ScrapeEvent.adds]; split <;> rfl

@[simp] theorem ToolDomainCounters.read_add (counters : ToolDomainCounters) (event : ScrapeEvent)
    (counter : Counter) :
    (counters.add event).read counter = counters.read counter + event.adds counter := by
  cases counter with
  | events => rfl
  | pages => rfl
  | errors => simp only [add, read, ScrapeEvent.adds]; split <;> rfl

theorem sum_adds_events (events : List ScrapeEvent) : (events.map (·.adds .events)).sum = events.length := by
  simp [ScrapeEvent.adds]

theorem ToolDomainCounters.read_foldl (events : List ScrapeEvent) (counters : ToolDomainCounters)
    (counter : Counter) :
    (events.foldl add counters).read counter = counters.read counter + (events.map (·.adds counter)).sum := by
  induction events generalizing counters with
  | nil => rfl
  | cons event rest ih => rw [List.foldl_cons, ih, read_add, List.map_cons, List.sum_cons, Nat.add_assoc]

namespace ScrapeMetrics

variable {metrics : ScrapeMetrics} {event : ScrapeEvent} {seen : List ScrapeEvent}

def domainOf (metrics : ScrapeMetrics) (event : ScrapeEvent) : String := metrics.resolveDomainKey event.domain

def cellOf (metrics : ScrapeMetrics) (event : ScrapeEvent) : String :=
  metrics.resolveToolDomainKey event.tool (metrics.domainOf event)

theorem record_eq (metrics : ScrapeMetrics) (event : ScrapeEvent) :
    metrics.record event =
      { totalEvents := metrics.totalEvents + 1
        successCount := (metrics.countOutcome event.outcome).successCount
        errorCount := (metrics.countOutcome event.outcome).errorCount
        partialCount := (metrics.countOutcome event.outcome).partialCount
        domains := metrics.domains.modify (metrics.domainOf event) .default fun domain => domain.add event
        tools := metrics.tools.modify event.tool 0 fun events => events + 1
        toolDomains :=
          metrics.toolDomains.modifyCell event.tool (metrics.cellOf event) .default
            fun counters => counters.add event
        toolDomainDurations :=
          metrics.toolDomainDurations.modifyCell event.tool (metrics.cellOf event)
            (.withCapacity toolDomainDurationCapacity) fun reservoir => reservoir.record event.durationMs
        toolDomainPairs :=
          metrics.toolDomainPairs + if metrics.tracked event.tool (metrics.cellOf event) then 0 else 1
        durations := metrics.durations.record event.durationMs } := by
  have counted : (if !metrics.tracked event.tool (metrics.cellOf event) then metrics.toolDomainPairs + 1
      else metrics.toolDomainPairs) =
      metrics.toolDomainPairs + if metrics.tracked event.tool (metrics.cellOf event) then 0 else 1 := by
    cases metrics.tracked event.tool (metrics.cellOf event) <;> rfl
  rw [← counted]
  cases shape : event.outcome <;> simp only [record, countOutcome, shape] <;> rfl

theorem record_domains (metrics : ScrapeMetrics) (event : ScrapeEvent) :
    (metrics.record event).domains =
      metrics.domains.modify (metrics.domainOf event) .default fun domain => domain.add event := by
  rw [record_eq]

theorem record_toolDomains (metrics : ScrapeMetrics) (event : ScrapeEvent) :
    (metrics.record event).toolDomains =
      metrics.toolDomains.modify event.tool .empty fun perTool =>
        perTool.modify (metrics.cellOf event) .default fun counters => counters.add event := by
  rw [record_eq]
  rfl

theorem outcomes_countOutcome (metrics : ScrapeMetrics) (outcome : Outcome) :
    (metrics.countOutcome outcome).successCount + (metrics.countOutcome outcome).errorCount +
        (metrics.countOutcome outcome).partialCount =
      metrics.successCount + metrics.errorCount + metrics.partialCount + 1 := by
  cases outcome <;> simp only [countOutcome] <;> omega

theorem tracked_eq (metrics : ScrapeMetrics) (tool key : String) :
    metrics.tracked tool key = (metrics.toolDomains.cell tool key).isSome := by
  unfold tracked cell contains
  cases metrics.toolDomains.get tool <;> rfl

/-- A cell has the domain of the other breakdown, or else the overflow key. -/
theorem cellOf_cases (metrics : ScrapeMetrics) (event : ScrapeEvent) :
    metrics.cellOf event = metrics.domainOf event ∧
        (metrics.tracked event.tool (metrics.cellOf event) = true ∨
          metrics.toolDomainPairs < maxTrackedToolDomainPairs) ∨
      metrics.cellOf event = overflowDomainKey := by
  by_cases room : metrics.tracked event.tool (metrics.domainOf event) ∨
      metrics.toolDomainPairs < maxTrackedToolDomainPairs
  · have own : metrics.cellOf event = metrics.domainOf event := if_pos room
    exact .inl ⟨own, by rwa [own]⟩
  · exact .inr (if_neg room)

/-- A domain that is new to the breakdown comes below the cap, or is the overflow key. -/
theorem domainOf_cases (metrics : ScrapeMetrics) (event : ScrapeEvent) :
    metrics.domains.contains (metrics.domainOf event) = true ∨ metrics.domains.size < maxTrackedDomains ∨
      metrics.domainOf event = overflowDomainKey := by
  by_cases room : metrics.domains.contains event.domain ∨ metrics.domains.size < maxTrackedDomains
  · have own : metrics.domainOf event = event.domain := if_pos room
    rw [own]
    exact room.imp_right .inl
  · exact .inr (.inr (if_neg room))

/-! ### What is conserved -/

theorem total_cells (metrics : ScrapeMetrics) (event : ScrapeEvent) (counter : Counter) :
    (metrics.record event).toolDomains.total (fun _ perTool => perTool.total fun _ cell => cell.read counter) =
      metrics.toolDomains.total (fun _ perTool => perTool.total fun _ cell => cell.read counter) +
        event.adds counter := by
  rw [record_toolDomains]
  apply total_modify
  · rfl
  · apply total_modify <;> simp

theorem total_domains (metrics : ScrapeMetrics) (event : ScrapeEvent) (counter : Counter) :
    (metrics.record event).domains.total (fun _ stats => stats.read counter) =
      metrics.domains.total (fun _ stats => stats.read counter) + event.adds counter := by
  rw [record_domains]
  apply total_modify <;> simp

def cellsOf (metrics : ScrapeMetrics) (domain : String) (counter : Counter) : Nat :=
  metrics.toolDomains.total fun _ perTool => (perTool.get domain).elim 0 fun cell => cell.read counter

theorem cellsOf_record (metrics : ScrapeMetrics) (event : ScrapeEvent) (domain : String) (counter : Counter) :
    (metrics.record event).cellsOf domain counter =
      metrics.cellsOf domain counter + if domain = metrics.cellOf event then event.adds counter else 0 := by
  rw [cellsOf, record_toolDomains]
  apply total_modify
  · rfl
  · apply elim_get_modify <;> simp

def countOf (metrics : ScrapeMetrics) (domain : String) (counter : Counter) : Nat :=
  (metrics.domains.get domain).elim 0 fun stats => stats.read counter

theorem countOf_record (metrics : ScrapeMetrics) (event : ScrapeEvent) (domain : String) (counter : Counter) :
    (metrics.record event).countOf domain counter =
      metrics.countOf domain counter + if domain = metrics.domainOf event then event.adds counter else 0 := by
  rw [countOf, record_domains]
  apply elim_get_modify <;> simp

/-- The totals of a run, every one of them equal to the same sum over its events. -/
structure Totals (seen : List ScrapeEvent) (metrics : ScrapeMetrics) : Prop where
  total : metrics.totalEvents = seen.length
  outcomes : metrics.totalEvents = metrics.successCount + metrics.errorCount + metrics.partialCount
  tools : metrics.tools.total (fun _ events => events) = seen.length
  domains : ∀ counter,
    metrics.domains.total (fun _ stats => stats.read counter) = (seen.map (·.adds counter)).sum
  cells : ∀ counter,
    metrics.toolDomains.total (fun _ perTool => perTool.total fun _ cell => cell.read counter) =
      (seen.map (·.adds counter)).sum
  share : ∀ domain counter, domain ≠ overflowDomainKey →
    metrics.cellsOf domain counter ≤ metrics.countOf domain counter

theorem Totals.record (totals : Totals seen metrics) (event : ScrapeEvent) :
    Totals (seen ++ [event]) (metrics.record event) where
  total := by
    rw [record_eq]
    simp [totals.total]
  outcomes := by
    have counts := outcomes_countOutcome metrics event.outcome
    have before := totals.outcomes
    rw [record_eq]
    dsimp only
    omega
  tools := by
    rw [record_eq, List.length_append, ← totals.tools]
    exact total_modify _ rfl rfl
  domains counter := by
    rw [total_domains, totals.domains counter]
    simp
  cells counter := by
    rw [total_cells, totals.cells counter]
    simp
  share domain counter apart := by
    have before := totals.share domain counter apart
    rw [cellsOf_record, countOf_record]
    by_cases here : domain = metrics.cellOf event
    · -- a cell apart from the overflow has the domain of the other breakdown
      have same : domain = metrics.domainOf event := by
        rcases cellOf_cases metrics event with ⟨own, _⟩ | folded
        · exact here.trans own
        · exact absurd (here.trans folded) apart
      rw [if_pos here, if_pos same]
      omega
    · rw [if_neg here]
      omega

/-! ### The caps -/

/-- How many tools have a cell under the overflow key. -/
def overflowing (metrics : ScrapeMetrics) : Nat :=
  metrics.toolDomains.total fun _ perTool => if perTool.contains overflowDomainKey then 1 else 0

structure Caps (metrics : ScrapeMetrics) : Prop where
  domains :
    metrics.domains.size ≤ maxTrackedDomains + if metrics.domains.contains overflowDomainKey then 1 else 0
  /-- The counter of the cells is their number. -/
  pairs : metrics.toolDomainPairs = metrics.toolDomains.total fun _ perTool => perTool.size
  cells : metrics.toolDomainPairs ≤ maxTrackedToolDomainPairs + metrics.overflowing
  tools : ∀ tool, metrics.toolDomains.contains tool = metrics.tools.contains tool
  rows : metrics.toolDomains.size = metrics.tools.size

theorem overflowing_record (metrics : ScrapeMetrics) (event : ScrapeEvent) :
    (metrics.record event).overflowing =
      metrics.overflowing +
        if metrics.cellOf event = overflowDomainKey ∧ ¬ metrics.tracked event.tool (metrics.cellOf event)
        then 1 else 0 := by
  rw [overflowing, record_toolDomains]
  apply total_modify _ rfl
  rw [tracked_eq, cell_eq_get_row, contains_modify, contains]
  by_cases same : metrics.cellOf event = overflowDomainKey
  · rw [same]
    cases ((metrics.toolDomains.get event.tool).getD empty).get overflowDomainKey <;> simp
  · simp [same, Ne.symm same]

theorem pairs_record (metrics : ScrapeMetrics) (event : ScrapeEvent) :
    ((metrics.record event).toolDomains.total fun _ perTool => perTool.size) =
      (metrics.toolDomains.total fun _ perTool => perTool.size) +
        if metrics.tracked event.tool (metrics.cellOf event) then 0 else 1 := by
  rw [record_toolDomains, tracked_eq]
  apply total_modify
  · rfl
  · exact size_modify_row ..

theorem Caps.record (caps : Caps metrics) (event : ScrapeEvent) : Caps (metrics.record event) where
  domains := by
    have before := caps.domains
    rw [record_eq]
    simp only [size_modify, contains_modify]
    rcases domainOf_cases metrics event with known | room | folded
    · -- a tracked domain changes no size
      rw [if_pos known]
      split at before <;> simp_all
      split <;> omega
    · split <;> split <;> omega
    · rw [folded] at *
      cases known : metrics.domains.contains overflowDomainKey <;> simp [known] at before ⊢ <;> omega
  pairs := by
    rw [pairs_record, ← caps.pairs, record_eq]
  cells := by
    have before := caps.cells
    rw [overflowing_record, record_eq]
    dsimp only
    cases known : metrics.tracked event.tool (metrics.cellOf event) with
    | true => simpa using before
    | false =>
      rcases cellOf_cases metrics event with ⟨_, tracked | room⟩ | folded
      · rw [known] at tracked
        contradiction
      · -- a new cell of its own comes below the cap
        simp only [Bool.false_eq_true, if_false]
        omega
      · simp only [folded, Bool.false_eq_true, if_false, not_false_eq_true, and_self, if_true]
        omega
  tools tool := by
    rw [record_eq]
    simp only [modifyCell, contains_modify, caps.tools]
  rows := by
    rw [record_eq]
    simp only [modifyCell, size_modify, caps.tools, caps.rows]

theorem Caps.overflowing_le (caps : Caps metrics) : metrics.overflowing ≤ metrics.tools.size := by
  rw [← caps.rows]
  exact total_le_size (fun _ _ => by split <;> omega) _

/-! ### Cells and their events -/

/-- The events of one cell among events that stand with their cells. -/
def eventsAt (tool domain : String) (counted : List (String × ScrapeEvent)) : List ScrapeEvent :=
  (counted.filter fun entry => entry.2.tool = tool ∧ entry.1 = domain).map Prod.snd

/-- Every event of a run, with the domain of the cell in which it is counted. -/
def counted : ScrapeMetrics → List ScrapeEvent → List (String × ScrapeEvent)
  | _, [] => []
  | metrics, event :: rest => (metrics.cellOf event, event) :: counted (metrics.record event) rest

structure Cells (entries : List (String × ScrapeEvent)) (metrics : ScrapeMetrics) : Prop where
  cells : ∀ tool domain,
    metrics.toolDomains.cell tool domain = kept .default ToolDomainCounters.add (eventsAt tool domain entries)
  durations : ∀ tool domain,
    metrics.toolDomainDurations.cell tool domain =
      kept (.withCapacity toolDomainDurationCapacity) DurationReservoir.record
        ((eventsAt tool domain entries).map (·.durationMs))

theorem eventsAt_concat (tool domain : String) (entries : List (String × ScrapeEvent))
    (entry : String × ScrapeEvent) :
    eventsAt tool domain (entries ++ [entry]) =
      eventsAt tool domain entries ++ if tool = entry.2.tool ∧ domain = entry.1 then [entry.2] else [] := by
  by_cases here : tool = entry.2.tool ∧ domain = entry.1
  · obtain ⟨rfl, rfl⟩ := here
    simp [eventsAt]
  · have apart : ¬ (entry.2.tool = tool ∧ entry.1 = domain) := fun both => here ⟨both.1.symm, both.2.symm⟩
    simp [eventsAt, here, apart]

theorem Cells.record {entries : List (String × ScrapeEvent)} (cells : Cells entries metrics)
    (event : ScrapeEvent) :
    Cells (entries ++ [(metrics.cellOf event, event)]) (metrics.record event) where
  cells tool domain := by
    rw [record_eq, cell_modifyCell, eventsAt_concat, cells.cells, cells.cells]
    by_cases here : tool = event.tool ∧ domain = metrics.cellOf event
    · obtain ⟨rfl, rfl⟩ := here
      simp [kept_concat]
    · simp [here]
  durations tool domain := by
    rw [record_eq, cell_modifyCell, eventsAt_concat, cells.durations, cells.durations]
    by_cases here : tool = event.tool ∧ domain = metrics.cellOf event
    · obtain ⟨rfl, rfl⟩ := here
      simp [kept_concat]
    · simp [here]

/-! ### Runs -/

/-- What holds after the events of `entries`, each with the domain of its cell. -/
structure Sound (entries : List (String × ScrapeEvent)) (metrics : ScrapeMetrics) : Prop where
  totals : Totals (entries.map Prod.snd) metrics
  caps : Caps metrics
  cells : Cells entries metrics
  durations :
    metrics.durations.Retains durationSampleCapacity ((entries.map Prod.snd).map (·.durationMs))

theorem Sound.default : Sound [] .default where
  totals := ⟨rfl, rfl, rfl, fun _ => rfl, fun _ => rfl, fun _ _ _ => Nat.le_refl 0⟩
  caps := ⟨Nat.zero_le _, rfl, Nat.zero_le _, fun _ => rfl, rfl⟩
  cells := ⟨fun _ _ => rfl, fun _ _ => rfl⟩
  durations := .new (by decide)

theorem Sound.record {entries : List (String × ScrapeEvent)} (sound : Sound entries metrics)
    (event : ScrapeEvent) :
    Sound (entries ++ [(metrics.cellOf event, event)]) (metrics.record event) where
  totals := by simpa using sound.totals.record event
  caps := sound.caps.record event
  cells := sound.cells.record event
  durations := by
    rw [record_eq]
    simpa using sound.durations.record

theorem Sound.run {entries : List (String × ScrapeEvent)} (sound : Sound entries metrics)
    (events : List ScrapeEvent) :
    Sound (entries ++ counted metrics events) (events.foldl ScrapeMetrics.record metrics) := by
  induction events generalizing entries metrics with
  | nil => simpa [counted] using sound
  | cons event rest ih => simpa [counted] using ih (sound.record event)

theorem counted_events (metrics : ScrapeMetrics) (events : List ScrapeEvent) :
    (counted metrics events).map Prod.snd = events := by
  induction events generalizing metrics with
  | nil => rfl
  | cons event rest ih => rw [counted, List.map_cons, ih]

/-- The accumulator after a sequence of events. -/
def recorded (events : List ScrapeEvent) : ScrapeMetrics := events.foldl record default

/-- The events of a sequence that are counted in a cell. -/
def eventsOf (events : List ScrapeEvent) (tool domain : String) : List ScrapeEvent :=
  eventsAt tool domain (counted default events)

theorem sound_recorded (events : List ScrapeEvent) : Sound (counted default events) (recorded events) := by
  simpa [recorded] using Sound.default.run events

theorem cell_projectToolDomains (metrics : ScrapeMetrics) (tool domain : String) :
    metrics.projectToolDomains.cell tool domain =
      (metrics.toolDomains.cell tool domain).map fun counters =>
        .new counters
          ((metrics.toolDomainDurations.cell tool domain).elim .empty DurationReservoir.percentiles) := by
  unfold projectToolDomains
  rw [cell, get_mapValues, cell_eq_get_row metrics.toolDomains]
  cases metrics.toolDomains.get tool with
  | none => rfl
  | some perTool => exact get_mapValues ..

end ScrapeMetrics

/-! ### The snapshot -/

/-- The counts of a snapshot agree with each other and are within the caps. -/
structure Balanced (snapshot : MetricsSnapshot) : Prop where
  outcomes : snapshot.totalEvents = snapshot.successCount + snapshot.errorCount + snapshot.partialCount
  byDomain : snapshot.domains.total (fun _ stats => stats.events) = snapshot.totalEvents
  byTool : snapshot.tools.total (fun _ events => events) = snapshot.totalEvents
  byCell :
    snapshot.toolDomains.total (fun _ perTool => perTool.total fun _ cell => cell.events) =
      snapshot.totalEvents
  pages :
    snapshot.domains.total (fun _ stats => stats.pages) =
      snapshot.toolDomains.total fun _ perTool => perTool.total fun _ cell => cell.pages
  errors :
    snapshot.domains.total (fun _ stats => stats.errors) =
      snapshot.toolDomains.total fun _ perTool => perTool.total fun _ cell => cell.errors
  share : ∀ domain stats, snapshot.domains.get domain = some stats → domain ≠ overflowDomainKey →
    (snapshot.toolDomains.total fun _ perTool => (perTool.get domain).elim 0 (·.events)) ≤ stats.events ∧
    (snapshot.toolDomains.total fun _ perTool => (perTool.get domain).elim 0 (·.pages)) ≤ stats.pages ∧
    (snapshot.toolDomains.total fun _ perTool => (perTool.get domain).elim 0 (·.errors)) ≤ stats.errors
  domainCap : snapshot.domains.size ≤ maxTrackedDomains + 1
  cellCap :
    (snapshot.toolDomains.total fun _ perTool => perTool.size) ≤
      maxTrackedToolDomainPairs + snapshot.tools.size

/-- A reservoir and the percentiles that are published of it, after the durations of a list. -/
structure Windowed (capacity : Nat) (durations : List Nat) (reservoir : DurationReservoir)
    (published : DurationPercentiles) : Prop where
  samples : reservoir.samples.Perm (Ring.window capacity durations)
  percentiles : DurationReservoir.Published capacity durations published

def CellLaw (events : List ScrapeEvent) : Option ToolDomainStats → Option DurationReservoir → Prop
  | none, none => events = []
  | some stats, some reservoir =>
    stats.events = events.length ∧
      Windowed toolDomainDurationCapacity (events.map fun event => event.duration / 1000000 % 2 ^ 64) reservoir
        stats.durationPercentiles
  | _, _ => False

namespace ScrapeMetrics

variable {metrics : ScrapeMetrics} {seen : List ScrapeEvent}

theorem Totals.balanced (totals : Totals seen metrics) (caps : Caps metrics) : Balanced metrics.snapshot where
  outcomes := totals.outcomes
  byDomain := (totals.domains .events).trans ((sum_adds_events seen).trans totals.total.symm)
  byTool := totals.tools.trans totals.total.symm
  byCell := by
    have sum := (totals.cells .events).trans ((sum_adds_events seen).trans totals.total.symm)
    simp only [snapshot, projectToolDomains, total_mapValues]
    exact sum
  pages := by
    have sum := (totals.domains .pages).trans (totals.cells .pages).symm
    simp only [snapshot, projectToolDomains, total_mapValues]
    exact sum
  errors := by
    have sum := (totals.domains .errors).trans (totals.cells .errors).symm
    simp only [snapshot, projectToolDomains, total_mapValues]
    exact sum
  share domain stats found apart := by
    have bound (counter : Counter) : metrics.cellsOf domain counter ≤ stats.read counter := by
      have less := totals.share domain counter apart
      rwa [countOf, show metrics.domains.get domain = some stats from found] at less
    simp only [snapshot, projectToolDomains, total_mapValues, get_mapValues, Option.elim_map]
    exact ⟨bound .events, bound .pages, bound .errors⟩
  domainCap := by
    have most := caps.domains
    show metrics.domains.size ≤ _
    split at most <;> omega
  cellCap := by
    have most := caps.cells
    have few := caps.overflowing_le
    rw [caps.pairs] at most
    simp only [snapshot, projectToolDomains, total_mapValues, size_mapValues]
    omega

theorem Cells.law {entries : List (String × ScrapeEvent)} (cells : Cells entries metrics)
    (tool domain : String) :
    CellLaw (eventsAt tool domain entries) (metrics.snapshot.toolDomains.cell tool domain)
      (metrics.toolDomainDurations.cell tool domain) := by
  rw [show metrics.snapshot.toolDomains = metrics.projectToolDomains from rfl, cell_projectToolDomains,
    cells.cells, cells.durations]
  cases eventsAt tool domain entries with
  | nil => rfl
  | cons event rest =>
    have retained :
        DurationReservoir.Retains toolDomainDurationCapacity ((event :: rest).map (·.durationMs)) _ :=
      (DurationReservoir.Retains.new (by decide)).foldl _
    refine ⟨?_, retained.ring.perm, retained.published⟩
    have sum := ToolDomainCounters.read_foldl (event :: rest) .default .events
    rw [sum_adds_events, ToolDomainCounters.read_default, Nat.zero_add] at sum
    exact sum

/-- Whatever events are recorded, the snapshot is balanced, and every reservoir holds the last
of the durations of its events and publishes their percentiles. -/
theorem snapshot_law (events : List ScrapeEvent) :
    Balanced (recorded events).snapshot ∧
      (recorded events).snapshot.totalEvents = events.length ∧
      Windowed durationSampleCapacity (events.map fun event => event.duration / 1000000 % 2 ^ 64)
        (recorded events).durations (recorded events).snapshot.durationPercentiles ∧
      ∀ tool domain,
        CellLaw (eventsOf events tool domain) ((recorded events).snapshot.toolDomains.cell tool domain)
          ((recorded events).toolDomainDurations.cell tool domain) := by
  have sound := sound_recorded events
  have totals := sound.totals
  have durations := sound.durations
  rw [counted_events] at totals durations
  exact ⟨totals.balanced sound.caps, totals.total, ⟨durations.ring.perm, durations.published⟩,
    fun tool domain => sound.cells.law tool domain⟩

end ScrapeMetrics

end Webfang.Mcp
