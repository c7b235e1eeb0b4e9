import Mathlib.Data.Nat.ModEq

/-!
# The session pool

`DomainSessionPool` of `infrastructure/network/session_pool.rs`: for each domain a fixed number
of slots, each healthy, banned until a deadline, or retiring. Instants and durations count
nanoseconds; the log lines are left out.
-/
namespace Webfang.Network

open Std

abbrev Instant := Nat

abbrev Duration := Nat

def Duration.asMillis (duration : Duration) : Nat := duration / 1000000

def Duration.fromMillis (millis : Nat) : Duration := millis * 1000000

inductive SessionStatus where
  | healthy
  | banned
  | retiring
  deriving DecidableEq, Repr

structure SessionState where
  status : SessionStatus
  consecutiveFailures : UInt32
  lastFailureTime : Option Instant
  nextRetryTime : Option Instant
  deriving DecidableEq, Repr

def SessionState.fresh : SessionState := ⟨.healthy, 0, none, none⟩

/-- A non-zero number of slots. -/
structure DomainSlots where
  get : Nat
  pos : 0 < get

structure SessionPoolConfig where
  poolSize : DomainSlots
  baseDelay : Duration
  maxDelay : Duration
  maxExp : UInt32
  ttlDuration : Duration

structure DomainEntry (slots : Nat) where
  states : Vector SessionState slots
  lastSeen : Instant

/-- An order a scan of the map may meet its entries in. -/
structure IterationOrder (slots : Nat) where
  arrange : List (String × DomainEntry slots) → List (String × DomainEntry slots)
  perm : ∀ entries, (arrange entries).Perm entries

def maxTrackedDomains : Nat := 500

/-- The pool's configuration, with the instant `PICK_ANCHOR` was captured at. -/
structure PoolSetup extends SessionPoolConfig where
  pickAnchor : Instant

namespace PoolSetup

variable (setup : PoolSetup)

abbrev slots : Nat := setup.poolSize.get

/-- `sessions : DashMap<String, DomainEntry>`. -/
abbrev Sessions := ExtTreeMap String (DomainEntry setup.slots)

/-! ### Picking a slot -/

def pickStart (domain : String) (now : Instant) (len : Nat) : Nat :=
  let seed : UInt64 := domain.toUTF8.data.foldl
    (fun seed byte => (seed ^^^ byte.toUInt64) * 0x00000100000001b3) 0xcbf29ce484222325
  -- the reading may lie on either side of the anchor
  let tick := if setup.pickAnchor ≤ now then now - setup.pickAnchor else setup.pickAnchor - now
  let seed := seed ^^^ UInt64.ofNat (min tick (2 ^ 64 - 1))
  let z := (seed ^^^ (seed >>> 30)) * 0xbf58476d1ce4e5b9
  let z := (z ^^^ (z >>> 27)) * 0x94d049bb133111eb
  let z := z ^^^ (z >>> 31)
  z.toNat % max len 1

def bannedSessionReady (state : SessionState) (now : Instant) : Bool :=
  state.nextRetryTime.any fun deadline => deadline ≤ now

/-- The arms of the match in `find_available`. -/
def ready (state : SessionState) (now : Instant) : Bool :=
  match state.status with
  | .healthy => true
  | .banned => bannedSessionReady state now
  | .retiring => false

def findAvailable {len : Nat} (domain : String) (sessions : Vector SessionState len)
    (now : Instant) : Option Nat :=
  let start := setup.pickStart domain now len
  (List.range len).findSome? fun k =>
    let idx := (start + k) % len
    if sessions[idx]?.any fun state => ready state now then some idx else none

/-! ### Failures -/

/-- `jitter` is the random factor with the rounding to `u64` milliseconds. -/
def backoffDelay (jitter : Nat → UInt64) (consecutiveFailures : UInt32) : Duration :=
  let exponent := min consecutiveFailures.toNat setup.maxExp.toNat
  let power := 2 ^ exponent % 2 ^ 128
  let delayMs := min (Duration.asMillis setup.baseDelay * power) (2 ^ 128 - 1)
  let capped := max (min delayMs (Duration.asMillis setup.maxDelay)) 1
  Duration.fromMillis (max (jitter capped).toNat 1)

def applyFailure (jitter : Nat → UInt64) (state : SessionState) (sessionId : Nat)
    (shouldBan : Bool) (now : Instant) : SessionState :=
  let failures := state.consecutiveFailures + 1
  let failed := { state with consecutiveFailures := failures, lastFailureTime := some now }
  if shouldBan then
    let delay := setup.backoffDelay jitter failures
    let staggerWindowMs := max (Duration.asMillis delay / 5) 1
    let staggerMs := sessionId * 37 % 2 ^ 64 % staggerWindowMs
    { failed with
      nextRetryTime := some (now + delay + Duration.fromMillis staggerMs), status := .banned }
  else if 3 ≤ failures then { failed with status := .retiring }
  else failed

def shouldBan (statusCode : UInt16) : Bool :=
  statusCode = 429 || statusCode = 503 || statusCode = 403

/-! ### Eviction -/

/-- The loop body of `evict_expired`, which `evict_stale` repeats. -/
def evictExpired (now : Instant) (state : SessionState) : SessionState :=
  match state.lastFailureTime with
  | some lastFailure =>
    if setup.ttlDuration < now - lastFailure ∧ state.status ≠ .healthy then .fresh else state
  | none => state

def enforceDomainCap (order : IterationOrder setup.slots) (sessions : setup.Sessions) :
    setup.Sessions :=
  let tracked := sessions.size
  if tracked ≤ maxTrackedDomains then sessions
  else
    let excess := tracked - maxTrackedDomains
    let byAge := (order.arrange sessions.toList).map fun (domain, entry) => (domain, entry.lastSeen)
    let byAge := byAge.mergeSort fun a b => a.2 ≤ b.2
    (byAge.take excess).foldl (fun sessions aged => sessions.erase aged.1) sessions

/-! ### The operations -/

/-- `or_insert_with`: an untracked domain starts with healthy slots. -/
def entryOrInsert (sessions : setup.Sessions) (domain : String) (now : Instant) :
    DomainEntry setup.slots :=
  (sessions[domain]?).getD ⟨Vector.replicate setup.slots .fresh, now⟩

def acquire (order : IterationOrder setup.slots) (sessions : setup.Sessions) (domain : String)
    (now : Instant) : setup.Sessions × Option Nat :=
  let entry := setup.entryOrInsert sessions domain now
  let states := entry.states.map (setup.evictExpired now)
  let result := setup.findAvailable domain states now
  (setup.enforceDomainCap order (sessions.insert domain ⟨states, now⟩), result)

/-- Rewrite the slot `sessionId` of a tracked domain. The touch of `last_seen` happens also
when the domain has no such slot. -/
def report (sessions : setup.Sessions) (domain : String) (sessionId : Nat) (seen : Instant)
    (update : SessionState → SessionState) : setup.Sessions :=
  match sessions[domain]? with
  | some entry =>
    let states := if bound : sessionId < setup.slots then
      entry.states.set sessionId (update entry.states[sessionId]) else entry.states
    sessions.insert domain ⟨states, seen⟩
  | none => sessions

def reportSuccess (sessions : setup.Sessions) (domain : String) (sessionId : Nat)
    (now : Instant) : setup.Sessions :=
  setup.report sessions domain sessionId now fun _ => .fresh

/-- The clock is read for the touch and again for the failure. -/
def reportFailure (jitter : Nat → UInt64) (sessions : setup.Sessions) (domain : String)
    (sessionId : Nat) (statusCode : UInt16) (seen now : Instant) : setup.Sessions :=
  setup.report sessions domain sessionId seen fun state =>
    setup.applyFailure jitter state sessionId (shouldBan statusCode) now

def evictStale (sessions : setup.Sessions) (now : Instant) : setup.Sessions :=
  let reset := sessions.map fun _ entry =>
    { entry with states := entry.states.map (setup.evictExpired now) }
  reset.filter fun _ entry => !(setup.ttlDuration < now - entry.lastSeen : Bool)

end PoolSetup

end Webfang.Network
