import Webfang.Downloader.HybridRouter
import Webfang.Library.Counting
import Webfang.Library.Transition
import Webfang.Network.SsrfGuard

/-!
# Concurrent fetches through one router

`infrastructure/downloader/fetch_router.rs`, strategies `Hybrid` and `Full`. Every fetch
moves from one await point to the next in any order with the others, and may be dropped
where it waits. `Full` holds a permit of its governor while Chromium renders; the hybrid
router only ever asks its governor about the memory.
-/
namespace Webfang.Downloader

open Library

inductive FetchRouter where
  | hybrid (router : HybridRouter)
  | full

/-- Where a fetch waits. In `layer3` and `rendering` a Chromium fetch runs. -/
inductive Phase where
  | layer1
  | beforeLayer2
  | layer2
  | beforeLayer3
  | layer3
  | beforeAcquire
  | acquiring
  | rendering
  /-- Returned, or dropped by its caller. -/
  | ended (result : Option Fetched)

def Phase.inChromium : Phase → Bool
  | .layer3 | .rendering => true
  | _ => false

def Phase.hasEnded : Phase → Bool
  | .ended _ => true
  | _ => false

/-- `permit` tells whether the future owns a permit of the governor. -/
structure Fetch where
  phase : Phase
  permit : Bool

inductive Event where
  /-- A caller fetches a URL with this host; the environment has this escape hatch. -/
  | call (hatch host : Option String)
  /-- The layer a fetch waits for answers. -/
  | answer (index : Nat) (result : Fetched)
  /-- A fetch makes its resource check. -/
  | check (index : Nat) (usage : UInt8)
  /-- A pending `acquire` gets its permit, or sees the token. -/
  | grant (index : Nat)
  | abort (index : Nat)
  | drop (index : Nat)
  | shutdown

structure RouterState where
  governor : ResourceGovernor
  fetches : List Fetch

namespace RouterState

def start (maxPermits : Nat) : RouterState := ⟨.withMaxInstances maxPermits, []⟩

variable (s : RouterState)

def phase (index : Nat) : Option Phase := s.fetches[index]?.map Fetch.phase

def moveTo (index : Nat) (fetch : Fetch) : RouterState :=
  { s with fetches := s.fetches.set index fetch }

/-- The future of a fetch is over: what it owns is dropped with it. -/
def finish (index : Nat) (fetch : Fetch) (result : Option Fetched) : RouterState where
  governor := if fetch.permit then s.governor.release else s.governor
  fetches := s.fetches.set index ⟨.ended result, false⟩

/-- The fetch ends with the result, or waits at the next point. -/
def follow (index : Nat) (fetch : Fetch) (next : Next) (phase : Phase) : RouterState :=
  match next with
  | .done result => s.finish index fetch (some result)
  | .escalate => s.moveTo index { fetch with phase }

def plus (phase : Phase) : RouterState := { s with fetches := s.fetches ++ [⟨phase, false⟩] }

def running : Nat := s.fetches.countP fun fetch => fetch.phase.inChromium

def held : Nat := s.fetches.countP fun fetch => fetch.permit

variable {s} {index : Nat} {fetch : Fetch}

theorem held_moveTo (found : s.fetches[index]? = some fetch) (moved : Fetch) :
    (s.moveTo index moved).held + (if fetch.permit then 1 else 0) =
      s.held + if moved.permit then 1 else 0 :=
  Counting.countP_set_add _ moved found

theorem running_moveTo (found : s.fetches[index]? = some fetch) (moved : Fetch) :
    (s.moveTo index moved).running + (if fetch.phase.inChromium then 1 else 0) =
      s.running + if moved.phase.inChromium then 1 else 0 :=
  Counting.countP_set_add _ moved found

theorem held_finish (found : s.fetches[index]? = some fetch) (result : Option Fetched) :
    (s.finish index fetch result).held + (if fetch.permit then 1 else 0) = s.held :=
  held_moveTo found ⟨.ended result, false⟩

theorem running_finish (found : s.fetches[index]? = some fetch) (result : Option Fetched) :
    (s.finish index fetch result).running + (if fetch.phase.inChromium then 1 else 0) = s.running :=
  running_moveTo found ⟨.ended result, false⟩

theorem available_finish (s : RouterState) (index : Nat) (fetch : Fetch) (result : Option Fetched) :
    (s.finish index fetch result).governor.available =
    s.governor.available + if fetch.permit then 1 else 0 := by
  cases owned : fetch.permit <;> simp [finish, owned, ResourceGovernor.release]

@[simp] theorem maxPermits_finish (result : Option Fetched) :
    (s.finish index fetch result).governor.maxPermits = s.governor.maxPermits := by
  unfold finish
  split <;> rfl

end RouterState

namespace FetchRouter

variable (router : FetchRouter)

def firstPhase : FetchRouter → Phase
  | .hybrid _ => .layer1
  | .full => .beforeAcquire

/-- The entry guard comes before every layer. -/
def opened (hatch host : Option String) : Fetch :=
  match Network.seedGuardRefusal hatch host with
  | some rejection => ⟨.ended (some (.error (.invalidUrl rejection.message))), false⟩
  | none => ⟨router.firstPhase, false⟩

/-- One event; `none` when the fetch does not wait for it. -/
def step (s : RouterState) : Event → Option RouterState
  | .call hatch host => some { s with fetches := s.fetches ++ [router.opened hatch host] }
  | .answer index result => do
    let fetch ← s.fetches[index]?
    match router, fetch.phase with
    | .hybrid layers, .layer1 => some (s.follow index fetch (layers.afterLayer1 result) .beforeLayer2)
    | .hybrid _, .layer2 => some (s.follow index fetch (HybridRouter.afterLayer2 result) .beforeLayer3)
    | .hybrid _, .layer3 => some (s.finish index fetch (some result))
    | .full, .rendering => some (s.finish index fetch (some result))
    | _, _ => none
  | .check index usage => do
    let fetch ← s.fetches[index]?
    let next := HybridRouter.checkMemory s.governor usage
    match router, fetch.phase with
    | .hybrid _, .beforeLayer2 => some (s.follow index fetch next .layer2)
    -- no permit is taken on the way into Chromium
    | .hybrid _, .beforeLayer3 => some (s.follow index fetch next .layer3)
    | .full, .beforeAcquire => some (s.follow index fetch next .acquiring)
    | _, _ => none
  | .grant index => do
    let fetch ← s.fetches[index]?
    match fetch.phase with
    | .acquiring =>
      let governor ← s.governor.grant
      some ({ s with governor }.moveTo index ⟨.rendering, true⟩)
    | _ => none
  | .abort index => do
    let fetch ← s.fetches[index]?
    match fetch.phase with
    | .acquiring =>
      let e ← s.governor.abort
      some (s.finish index fetch (some (.error e)))
    | _ => none
  | .drop index => do
    let fetch ← s.fetches[index]?
    if fetch.phase.hasEnded then none else some (s.finish index fetch none)
  | .shutdown => some { s with governor := s.governor.cancel }

def Step (s : RouterState) (e : Event) (s' : RouterState) : Prop := router.step s e = some s'

/-- The moves between two waits of a fetch that take no permit. -/
inductive Follows : FetchRouter → Event → Nat → Phase → Phase → Prop
  | shell {layers index result} : Follows (.hybrid layers) (.answer index result) index .layer1 .beforeLayer2
  | memory2 {layers index usage} : Follows (.hybrid layers) (.check index usage) index .beforeLayer2 .layer2
  | gaveUp {layers index result} : Follows (.hybrid layers) (.answer index result) index .layer2 .beforeLayer3
  | memory3 {layers index usage} (below : usage < criticalThreshold) :
      Follows (.hybrid layers) (.check index usage) index .beforeLayer3 .layer3
  | memory {index usage} : Follows .full (.check index usage) index .beforeAcquire .acquiring

variable {router} {s s' : RouterState} {e : Event}

inductive Steps (router : FetchRouter) (s : RouterState) (e : Event) : RouterState → Prop
  | called (hatch host : Option String) :
      Steps router s e { s with fetches := s.fetches ++ [router.opened hatch host] }
  | cancelled : Steps router s e { s with governor := s.governor.cancel }
  | finished {index : Nat} {fetch : Fetch} (result : Option Fetched)
      (found : s.fetches[index]? = some fetch) : Steps router s e (s.finish index fetch result)
  | moved {index : Nat} {fetch : Fetch} {phase : Phase} (found : s.fetches[index]? = some fetch)
      (follows : router.Follows e index fetch.phase phase) :
      Steps router s e (s.moveTo index { fetch with phase })
  | granted {index : Nat} {fetch : Fetch} (found : s.fetches[index]? = some fetch)
      (acquiring : fetch.phase = .acquiring) (free : 0 < s.governor.available) :
      Steps router s e
        ({ s with governor := { s.governor with available := s.governor.available - 1 } }.moveTo index
          ⟨.rendering, true⟩)

theorem Steps.followed {index : Nat} {fetch : Fetch} {next : Next} {phase : Phase}
    (found : s.fetches[index]? = some fetch)
    (moves : next = .escalate → router.Follows e index fetch.phase phase) :
    router.Steps s e (s.follow index fetch next phase) := by
  cases next with
  | done result => exact .finished (some result) found
  | escalate => exact .moved found (moves rfl)

theorem step_cases (taken : router.Step s e s') : router.Steps s e s' := by
  cases e with
  | call hatch host => cases taken; exact .called hatch host
  | shutdown => cases taken; exact .cancelled
  | answer index result =>
    obtain ⟨fetch, found, taken⟩ := Option.bind_eq_some_iff.mp taken
    cases router with
    | hybrid layers =>
      cases here : fetch.phase <;> simp only [here, reduceCtorEq, Option.some.injEq] at taken
      -- only a fetch that waits for a layer can be answered
      case layer1 => subst taken; exact .followed found fun _ => here ▸ .shell
      case layer2 => subst taken; exact .followed found fun _ => here ▸ .gaveUp
      case layer3 => subst taken; exact .finished _ found
    | full =>
      cases here : fetch.phase <;> simp only [here, reduceCtorEq, Option.some.injEq] at taken
      case rendering => subst taken; exact .finished _ found
  | check index usage =>
    obtain ⟨fetch, found, taken⟩ := Option.bind_eq_some_iff.mp taken
    cases router with
    | hybrid layers =>
      cases here : fetch.phase <;> simp only [here, reduceCtorEq, Option.some.injEq] at taken
      case beforeLayer2 => subst taken; exact .followed found fun _ => here ▸ .memory2
      case beforeLayer3 =>
        subst taken
        exact .followed found fun passed => here ▸ .memory3 (HybridRouter.checkMemory_escalate.mp passed)
    | full =>
      cases here : fetch.phase <;> simp only [here, reduceCtorEq, Option.some.injEq] at taken
      case beforeAcquire => subst taken; exact .followed found fun _ => here ▸ .memory
  | grant index =>
    obtain ⟨fetch, found, taken⟩ := Option.bind_eq_some_iff.mp taken
    cases here : fetch.phase <;> simp only [here, reduceCtorEq] at taken
    case acquiring =>
      -- the semaphore has a permit left
      obtain ⟨governor, granted, taken⟩ := Option.bind_eq_some_iff.mp taken
      obtain ⟨free, same⟩ := Option.ite_none_right_eq_some.mp granted
      cases same
      cases taken
      exact .granted found here free
  | abort index =>
    obtain ⟨fetch, found, taken⟩ := Option.bind_eq_some_iff.mp taken
    cases here : fetch.phase <;> simp only [here, reduceCtorEq] at taken
    case acquiring =>
      obtain ⟨e, -, taken⟩ := Option.bind_eq_some_iff.mp taken
      cases taken
      exact .finished _ found
  | drop index =>
    -- a fetch that has not ended may be dropped at any await
    obtain ⟨fetch, found, taken⟩ := Option.bind_eq_some_iff.mp taken
    obtain ⟨-, taken⟩ := Option.ite_none_left_eq_some.mp taken
    cases taken
    exact .finished _ found

end FetchRouter

end Webfang.Downloader
