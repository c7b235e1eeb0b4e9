import Webfang.Library.Counting
import Webfang.Library.Transition
import Webfang.Network.SsrfGuard

/-!
# Resource downloads behind one semaphore

`infrastructure/crawler/resource_downloader.rs`. A download acquires the permits of a chunk,
one for each byte, before it buffers the chunk; the permits are forgotten, so that the guard
of the download gives them back when it is dropped. Any number of downloads share the
semaphore. Each moves from one await point to the next in any order with the others, and may
be dropped wherever it waits.
-/
namespace Webfang.Resource

open Library

/-! ### The semaphore and the guard -/

/-- The most permits a semaphore may be built with. -/
def maxPermits : Nat := (2 ^ 64 - 1) / 2 ^ 3

/-- The permits a semaphore is built with: more than `maxPermits` is a panic. -/
structure PermitBudget where
  permits : Nat
  within : permits ≤ maxPermits

/-- The semaphore, as its documentation has it: `acquire_many` gets all its permits at once
or none, and a dropped permit that was not forgotten is free again. -/
structure Semaphore where
  available : Nat
  closed : Bool
  deriving DecidableEq, Repr

namespace Semaphore

variable (semaphore : Semaphore)

def acquireMany (n : Nat) : Option Semaphore :=
  if semaphore.closed = false ∧ n ≤ semaphore.available then
    some { semaphore with available := semaphore.available - n }
  else none

def addPermits (n : Nat) : Semaphore := { semaphore with available := semaphore.available + n }

end Semaphore

structure PermitGuard where
  unitsAcquired : UInt64
  deriving DecidableEq, Repr

/-- A saturating addition. -/
def PermitGuard.updateReservation (guard : PermitGuard) (additionalUnits : UInt64) : PermitGuard where
  unitsAcquired :=
    if guard.unitsAcquired.toNat + additionalUnits.toNat < 2 ^ 64 then
      guard.unitsAcquired + additionalUnits
    else 0xFFFFFFFFFFFFFFFF

/-- The guard's `Drop`. -/
def PermitGuard.drop (guard : PermitGuard) (semaphore : Semaphore) : Semaphore :=
  if 0 < guard.unitsAcquired then semaphore.addPermits guard.unitsAcquired.toNat else semaphore

/-! ### One download -/

/-- Of the configuration: the limit. The two time-outs are events. -/
structure ResourceDownloadConfig where
  maxSizeBytes : UInt64 := 25 * 1024 * 1024
  deriving DecidableEq, Repr

inductive ResourceFailure where
  | config (message : String)
  | network
  | globalTimeout
  | slowlorisTimeout
  | payloadTooLarge
  | semaphoreInanition
  deriving DecidableEq, Repr

/-- How a download ends; `none` when its future is dropped. -/
abbrev Downloaded := Option (Except ResourceFailure (List UInt8))

/-- The locals of the chunk loop. -/
structure Streaming where
  guard : PermitGuard
  buffer : List UInt8
  totalBytes : UInt64
  deriving DecidableEq, Repr

def Streaming.start : Streaming := ⟨⟨0⟩, [], 0⟩

/-- Where a download waits. -/
inductive Phase where
  /-- For the response headers. -/
  | requesting
  /-- For the next chunk. -/
  | streaming (work : Streaming)
  /-- For the permits of a chunk. -/
  | acquiring (work : Streaming) (chunk : List UInt8)
  /-- The semaphore has granted the permits, and the download has not been polled since. -/
  | granted (work : Streaming) (chunk : List UInt8) (permits : Nat)
  /-- The locals declared after the guard are dropped, the guard is not. -/
  | unwinding (guard : PermitGuard) (result : Downloaded)
  | ended (result : Downloaded)
  deriving DecidableEq, Repr

def Phase.hasEnded : Phase → Bool
  | .ended _ => true
  | _ => false

/-- The units of the guard, while there is one. -/
def Phase.units : Phase → Nat
  | .requesting | .ended _ => 0
  | .streaming work | .acquiring work _ | .granted work _ _ => work.guard.unitsAcquired.toNat
  | .unwinding guard _ => guard.unitsAcquired.toNat

/-- The permits granted and not yet forgotten. -/
def Phase.inTransit : Phase → Nat
  | .granted _ _ permits => permits
  | _ => 0

/-- The bytes in the buffer of the loop, or in the result it became. -/
def Phase.buffered : Phase → Nat
  | .streaming work | .acquiring work _ | .granted work _ _ => work.buffer.length
  | .unwinding _ (some (.ok bytes)) => bytes.length
  | _ => 0

structure Call where
  config : ResourceDownloadConfig
  phase : Phase
  deriving DecidableEq, Repr

/-- What the request resolves to: `contentLength` is the header's value, where it parses. -/
inductive Answer where
  | timeout
  | failed
  | headers (contentLength : Option UInt64)

/-- What the body stream yields. -/
inductive Received where
  | timeout
  | failed
  | chunk (bytes : List UInt8)
  | finished

inductive DownloadEvent where
  /-- `parsed` is the host of the URL, if the URL parses; `hatch` the escape hatch. -/
  | call (config : ResourceDownloadConfig) (hatch : Option String) (parsed : Option (Option String))
  | answer (index : Nat) (answer : Answer)
  | receive (index : Nat) (received : Received)
  /-- The semaphore serves a pending `acquire_many`. -/
  | grant (index : Nat)
  /-- The granted permits reach the download, which goes on to its next wait. -/
  | resume (index : Nat)
  /-- The acquire runs out of time, or finds the semaphore closed. -/
  | acquireFails (index : Nat)
  /-- The guard of a download that is over is dropped. -/
  | dropGuard (index : Nat)
  /-- The future is dropped where it waits. -/
  | cancel (index : Nat)
  | close

structure DownloadState where
  semaphore : Semaphore
  calls : List Call
  deriving DecidableEq, Repr

namespace DownloadState

def start (budget : PermitBudget) : DownloadState := ⟨⟨budget.permits, false⟩, []⟩

variable (s : DownloadState)

def held : Nat := (s.calls.map fun call => call.phase.units).sum

def inTransit : Nat := (s.calls.map fun call => call.phase.inTransit).sum

def buffered : Nat := (s.calls.map fun call => call.phase.buffered).sum

def moveTo (index : Nat) (call : Call) (phase : Phase) : DownloadState :=
  { s with calls := s.calls.set index { call with phase } }

end DownloadState

/-! ### The steps -/

/-- The guard on the URL is before everything else. -/
def opened (config : ResourceDownloadConfig) (hatch : Option String)
    (parsed : Option (Option String)) : Call :=
  match parsed.bind (Network.seedGuardRefusal hatch) with
  | some rejection => ⟨config, .ended (some (.error (.config rejection.message)))⟩
  | none => ⟨config, .requesting⟩

/-- The headers, before there is a guard. -/
def afterAnswer (config : ResourceDownloadConfig) : Answer → Phase
  | .timeout => .ended (some (.error .globalTimeout))
  | .failed => .ended (some (.error .network))
  | .headers contentLength =>
    match contentLength with
    | some cl =>
      if config.maxSizeBytes < cl then .ended (some (.error .payloadTooLarge))
      else .streaming .start
    | none => .streaming .start

/-- One turn of the loop up to its next wait. -/
def afterReceived (config : ResourceDownloadConfig) (work : Streaming) : Received → Phase
  | .timeout => .unwinding work.guard (some (.error .slowlorisTimeout))
  | .failed => .unwinding work.guard (some (.error .network))
  | .finished => .unwinding work.guard (some (.ok work.buffer))
  | .chunk bytes =>
    let chunkLen := UInt64.ofNat bytes.length
    if config.maxSizeBytes < work.totalBytes + chunkLen then
      .unwinding work.guard (some (.error .payloadTooLarge))
    else if 0 < chunkLen then .acquiring work bytes
    else .streaming { work with totalBytes := work.totalBytes + chunkLen, buffer := work.buffer ++ bytes }

/-- The permit is forgotten, the guard takes its units over, the chunk is buffered. -/
def afterGrant (work : Streaming) (chunk : List UInt8) : Streaming where
  guard := work.guard.updateReservation (.ofNat chunk.length)
  buffer := work.buffer ++ chunk
  totalBytes := work.totalBytes + .ofNat chunk.length

/-- One event; `none` when the download does not wait for it. -/
def step (s : DownloadState) : DownloadEvent → Option DownloadState
  | .call config hatch parsed => some { s with calls := s.calls ++ [opened config hatch parsed] }
  | .close => some { s with semaphore := { s.semaphore with closed := true } }
  | .answer index answer => do
    let call ← s.calls[index]?
    match call.phase with
    | .requesting => some (s.moveTo index call (afterAnswer call.config answer))
    | _ => none
  | .receive index received => do
    let call ← s.calls[index]?
    match call.phase with
    | .streaming work => some (s.moveTo index call (afterReceived call.config work received))
    | _ => none
  | .grant index => do
    let call ← s.calls[index]?
    match call.phase with
    | .acquiring work chunk =>
      -- `chunk_len as u32`
      let permits := chunk.length % 2 ^ 32
      let semaphore ← s.semaphore.acquireMany permits
      some ({ s with semaphore }.moveTo index call (.granted work chunk permits))
    | _ => none
  | .resume index => do
    let call ← s.calls[index]?
    match call.phase with
    | .granted work chunk _ => some (s.moveTo index call (.streaming (afterGrant work chunk)))
    | _ => none
  | .acquireFails index => do
    let call ← s.calls[index]?
    let result := some (.error .semaphoreInanition)
    match call.phase with
    | .acquiring work _ => some (s.moveTo index call (.unwinding work.guard result))
    -- the acquire is dropped before its permits are seen
    | .granted work _ permits =>
      some ({ s with semaphore := s.semaphore.addPermits permits }.moveTo index call
        (.unwinding work.guard result))
    | _ => none
  | .dropGuard index => do
    let call ← s.calls[index]?
    match call.phase with
    | .unwinding guard result =>
      some ({ s with semaphore := guard.drop s.semaphore }.moveTo index call (.ended result))
    | _ => none
  | .cancel index => do
    let call ← s.calls[index]?
    match call.phase with
    | .requesting => some (s.moveTo index call (.ended none))
    | .streaming work | .acquiring work _ => some (s.moveTo index call (.unwinding work.guard none))
    | .granted work _ permits =>
      some ({ s with semaphore := s.semaphore.addPermits permits }.moveTo index call
        (.unwinding work.guard none))
    | .unwinding _ _ | .ended _ => none

def Step (s : DownloadState) (e : DownloadEvent) (s' : DownloadState) : Prop := step s e = some s'

/-- What one event can do: a call comes, the semaphore is closed, or one download moves and
its move changes what is free. -/
inductive Steps (s : DownloadState) (e : DownloadEvent) : DownloadState → Prop
  | called (config : ResourceDownloadConfig) (hatch : Option String) (parsed : Option (Option String)) :
      Steps s e { s with calls := s.calls ++ [opened config hatch parsed] }
  | closed : Steps s e { s with semaphore := { s.semaphore with closed := true } }
  | answered {index : Nat} {call : Call} (answer : Answer) (found : s.calls[index]? = some call)
      (here : call.phase = .requesting) :
      Steps s e (s.moveTo index call (afterAnswer call.config answer))
  | received {index : Nat} {call : Call} {work : Streaming} (received : Received)
      (found : s.calls[index]? = some call) (here : call.phase = .streaming work)
      (event : e = .receive index received) :
      Steps s e (s.moveTo index call (afterReceived call.config work received))
  | granted {index : Nat} {call : Call} {work : Streaming} {chunk : List UInt8}
      (found : s.calls[index]? = some call) (here : call.phase = .acquiring work chunk)
      (free : chunk.length % 2 ^ 32 ≤ s.semaphore.available) :
      Steps s e ({ s with semaphore :=
        { s.semaphore with available := s.semaphore.available - chunk.length % 2 ^ 32 } }.moveTo index
          call (.granted work chunk (chunk.length % 2 ^ 32)))
  | resumed {index : Nat} {call : Call} {work : Streaming} {chunk : List UInt8} {permits : Nat}
      (found : s.calls[index]? = some call) (here : call.phase = .granted work chunk permits) :
      Steps s e (s.moveTo index call (.streaming (afterGrant work chunk)))
  | abandoned {index : Nat} {call : Call} (found : s.calls[index]? = some call)
      (here : call.phase = .requesting) : Steps s e (s.moveTo index call (.ended none))
  | unwound {index : Nat} {call : Call} {work : Streaming} {result : Downloaded}
      (noBytes : ∀ bytes, result ≠ some (.ok bytes)) (found : s.calls[index]? = some call)
      (here : call.phase = .streaming work ∨ ∃ chunk, call.phase = .acquiring work chunk) :
      Steps s e (s.moveTo index call (.unwinding work.guard result))
  | returned {index : Nat} {call : Call} {work : Streaming} {chunk : List UInt8} {permits : Nat}
      {result : Downloaded} (noBytes : ∀ bytes, result ≠ some (.ok bytes))
      (found : s.calls[index]? = some call) (here : call.phase = .granted work chunk permits) :
      Steps s e ({ s with semaphore := s.semaphore.addPermits permits }.moveTo index call
        (.unwinding work.guard result))
  | released {index : Nat} {call : Call} {guard : PermitGuard} {result : Downloaded}
      (found : s.calls[index]? = some call) (here : call.phase = .unwinding guard result) :
      Steps s e ({ s with semaphore := guard.drop s.semaphore }.moveTo index call (.ended result))

theorem step_cases {s s' : DownloadState} {e : DownloadEvent} (taken : Step s e s') : Steps s e s' := by
  unfold Step at taken
  cases e with
  | call config hatch parsed =>
    cases taken
    exact .called config hatch parsed
  | close =>
    cases taken
    exact .closed
  | answer index answer =>
    obtain ⟨call, found, taken⟩ := Option.bind_eq_some_iff.mp taken
    split at taken
    next here =>
      cases taken
      exact .answered answer found here
    next => cases taken
  | receive index received =>
    obtain ⟨call, found, taken⟩ := Option.bind_eq_some_iff.mp taken
    split at taken
    next work here =>
      cases taken
      exact .received received found here rfl
    next => cases taken
  | grant index =>
    obtain ⟨call, found, taken⟩ := Option.bind_eq_some_iff.mp taken
    split at taken
    next work chunk here =>
      obtain ⟨semaphore, acquired, taken⟩ := Option.bind_eq_some_iff.mp taken
      obtain ⟨⟨-, free⟩, same⟩ := Option.ite_none_right_eq_some.mp acquired
      cases same
      cases taken
      exact .granted found here free
    next => cases taken
  | resume index =>
    obtain ⟨call, found, taken⟩ := Option.bind_eq_some_iff.mp taken
    split at taken
    next work chunk permits here =>
      cases taken
      exact .resumed found here
    next => cases taken
  | acquireFails index =>
    obtain ⟨call, found, taken⟩ := Option.bind_eq_some_iff.mp taken
    split at taken
    next work chunk here =>
      cases taken
      exact .unwound nofun found (.inr ⟨chunk, here⟩)
    next work chunk permits here =>
      cases taken
      exact .returned nofun found here
    next => cases taken
  | dropGuard index =>
    obtain ⟨call, found, taken⟩ := Option.bind_eq_some_iff.mp taken
    split at taken
    next guard result here =>
      cases taken
      exact .released found here
    next => cases taken
  | cancel index =>
    obtain ⟨call, found, taken⟩ := Option.bind_eq_some_iff.mp taken
    split at taken
    next here =>
      cases taken
      exact .abandoned found here
    next work here =>
      cases taken
      exact .unwound nofun found (.inl here)
    next work chunk here =>
      cases taken
      exact .unwound nofun found (.inr ⟨chunk, here⟩)
    next work chunk permits here =>
      cases taken
      exact .returned nofun found here
    all_goals cases taken

end Webfang.Resource
