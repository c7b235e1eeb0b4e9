import Webfang.Network.SessionPool

/-!
# What an acquired session may be

A ledger of the bans reported on each slot, kept beside the pool and apart from its states,
and the pool's `acquire` against it: a slot is handed out while the ledger has a running ban
on it only where the failure behind the ban is older than the time-to-live.
-/
namespace Webfang.Network

open Std

/-- A reported ban, and when the slot last failed in any way. -/
structure Ban where
  deadline : Instant
  lastFailure : Instant
  deriving DecidableEq, Repr

abbrev Ledger := String → Nat → Option Ban

inductive PoolCall (slots : Nat) where
  | acquire (order : IterationOrder slots) (domain : String) (now : Instant)
  | reportSuccess (domain : String) (sessionId : Nat) (now : Instant)
  | reportFailure (jitter : Nat → UInt64) (domain : String) (sessionId : Nat)
      (statusCode : UInt16) (seen now : Instant)
  | evictStale (now : Instant)

namespace PoolSetup

variable (setup : PoolSetup)

def call (sessions : setup.Sessions) : PoolCall setup.slots → setup.Sessions
  | .acquire order domain now => (setup.acquire order sessions domain now).1
  | .reportSuccess domain sessionId now => setup.reportSuccess sessions domain sessionId now
  | .reportFailure jitter domain sessionId statusCode seen now =>
    setup.reportFailure jitter sessions domain sessionId statusCode seen now
  | .evictStale now => setup.evictStale sessions now

def state? (sessions : setup.Sessions) (domain : String) (slot : Nat) : Option SessionState :=
  sessions[domain]?.bind fun entry => entry.states[slot]?

/-! ### The ledger -/

/-- Drop a ban whose last failure is of an age that `forgets` names. -/
def forget (forgets : Duration → Bool) (now : Instant) (ban : Option Ban) : Option Ban :=
  ban.filter fun ban => !forgets (now - ban.lastFailure)

/-- The ledger after a call that left the pool at `after`. A success and the eviction of the
domain clear a ban. -/
def record (forgets : Duration → Bool) (ledger : Ledger) (after : setup.Sessions) :
    PoolCall setup.slots → Ledger
  | .acquire _ acquired now => fun domain slot =>
    if domain ∉ after then none
    else if domain = acquired then forget forgets now (ledger domain slot)
    else ledger domain slot
  | .reportSuccess reported sessionId _ => fun domain slot =>
    if domain = reported ∧ slot = sessionId then none else ledger domain slot
  | .reportFailure _ reported sessionId statusCode _ now => fun domain slot =>
    if domain = reported ∧ slot = sessionId then
      if shouldBan statusCode then
        ((setup.state? after domain slot).bind SessionState.nextRetryTime).map (⟨·, now⟩)
      else (ledger domain slot).map fun ban => { ban with lastFailure := now }
    else ledger domain slot
  | .evictStale now => fun domain slot =>
    if domain ∉ after then none else forget forgets now (ledger domain slot)

def readings : PoolCall setup.slots → List Instant
  | .acquire _ _ now | .reportSuccess _ _ now | .evictStale now => [now]
  | .reportFailure _ _ _ _ seen now => [seen, now]

/-- The pool and the ledger after a sequence of calls on a new pool. -/
def runCalls (forgets : Duration → Bool) (calls : List (PoolCall setup.slots)) :
    setup.Sessions × Ledger :=
  calls.foldl (fun (sessions, ledger) call =>
    let after := setup.call sessions call
    (after, setup.record forgets ledger after call)) (∅, fun _ _ => none)

/-- Whether `acquire` at `now` may hand out a slot in this state. -/
def Available (now : Instant) (state : SessionState) : Prop :=
  state.status = .healthy ∨
    (state.status = .banned ∧ ∃ deadline, state.nextRetryTime = some deadline ∧ deadline ≤ now) ∨
    ∃ lastFailure, state.lastFailureTime = some lastFailure ∧
      setup.ttlDuration < now - lastFailure

/-- The state of a slot as `acquire` finds it: a new domain has healthy slots. -/
def slotState (sessions : setup.Sessions) (domain : String) (slot : Nat) : SessionState :=
  (setup.state? sessions domain slot).getD .fresh

/-! ### Each operation, slot by slot -/

section Operations

variable {setup} {sessions : setup.Sessions}

theorem ready_evictExpired_iff {state : SessionState} {now : Instant} :
    ready (setup.evictExpired now state) now = true ↔ setup.Available now state := by
  unfold PoolSetup.evictExpired PoolSetup.Available
  obtain ⟨status, failures, lastFailure, deadline⟩ := state
  cases lastFailure with
  | none => cases status <;> cases deadline <;> simp [ready, bannedSessionReady]
  | some lastFailure =>
    by_cases expired : setup.ttlDuration < now - lastFailure
    · cases status <;> simp [expired, ready, SessionState.fresh]
    · cases status <;> cases deadline <;> simp [expired, ready, bannedSessionReady]

/-- The rotated scan looks at every slot. -/
theorem exists_rotated_iff {len : Nat} (start : Nat) {p : Nat → Prop} :
    (∃ k < len, p ((start + k) % len)) ↔ ∃ idx < len, p idx := by
  constructor
  · rintro ⟨k, bound, holds⟩
    exact ⟨_, Nat.mod_lt _ (by omega), holds⟩
  · rintro ⟨idx, bound, holds⟩
    have positive : 0 < len := by omega
    -- walk from `start % len` up to `idx`, past the end where `idx` lies before it
    refine ⟨(idx + (len - start % len)) % len, Nat.mod_lt _ positive, ?_⟩
    have before : start % len < len := Nat.mod_lt _ positive
    have landed : (start + (idx + (len - start % len)) % len) % len = idx := by
      rw [Nat.add_mod_mod, ← Nat.mod_add_mod, show start % len + (idx + (len - start % len)) =
        idx + len by omega, Nat.add_mod_right, Nat.mod_eq_of_lt bound]
    rwa [landed]

theorem findAvailable_eq_some {len : Nat} {domain : String} {states : Vector SessionState len}
    {now : Instant} {sessionId : Nat}
    (found : setup.findAvailable domain states now = some sessionId) :
    ∃ bound : sessionId < len, ready states[sessionId] now = true := by
  obtain ⟨k, listed, picked⟩ := List.exists_of_findSome?_eq_some found
  obtain ⟨usable, same⟩ := Option.ite_none_right_eq_some.mp picked
  have bound : sessionId < len := by
    rw [← Option.some.inj same]
    exact Nat.mod_lt _ (by have := List.mem_range.mp listed; omega)
  refine ⟨bound, ?_⟩
  simpa [Option.some.inj same, bound] using usable

theorem findAvailable_isSome_iff {len : Nat} {domain : String} {states : Vector SessionState len}
    {now : Instant} : (setup.findAvailable domain states now).isSome = true ↔
      ∃ idx < len, states[idx]?.any (fun state => ready state now) = true := by
  rw [← exists_rotated_iff (setup.pickStart domain now len)]
  simp only [findAvailable, List.isSome_findSome?, List.any_eq_true, List.mem_range]
  apply exists_congr
  intro k
  apply and_congr_right
  intro bound
  simp

theorem erased_subset {α : Type} (removed : List (String × α)) {domain : String}
    {entry : DomainEntry setup.slots}
    (held : (removed.foldl (fun sessions aged => sessions.erase aged.1) sessions)[domain]? =
      some entry) : sessions[domain]? = some entry := by
  induction removed generalizing sessions with
  | nil => exact held
  | cons pair rest ih =>
    have held := ih held
    rw [ExtTreeMap.getElem?_erase] at held
    exact (Option.ite_none_left_eq_some.mp held).2

theorem size_erased {α : Type} (sessions : setup.Sessions) (removed : List (String × α))
    (distinct : (removed.map Prod.fst).Nodup) (present : ∀ pair ∈ removed, pair.1 ∈ sessions) :
    (removed.foldl (fun sessions aged => sessions.erase aged.1) sessions).size +
      removed.length = sessions.size := by
  induction removed generalizing sessions with
  | nil => rfl
  | cons pair rest ih =>
    obtain ⟨apart, distinct⟩ := List.nodup_cons.mp distinct
    have held := present pair List.mem_cons_self
    have others : ∀ other ∈ rest, other.1 ∈ sessions.erase pair.1 := by
      intro other listed
      rw [ExtTreeMap.mem_erase]
      constructor
      · intro same
        apply apart
        rw [LawfulEqOrd.eq_of_compare same]
        exact List.mem_map_of_mem listed
      · exact present other (List.mem_cons_of_mem _ listed)
    have counted := ih (sessions.erase pair.1) distinct others
    have shrunk := ExtTreeMap.size_erase (t := sessions) (k := pair.1)
    rw [if_pos (ExtTreeMap.mem_iff_contains.mp held)] at shrunk
    -- the truncated subtraction of the library lemma is a real one here
    have positive : sessions.size ≠ 0 := by
      intro empty
      rw [← ExtTreeMap.eq_empty_iff_size_eq_zero] at empty
      rw [empty] at held
      exact absurd held ExtTreeMap.not_mem_empty
    simp only [List.foldl_cons, List.length_cons]
    omega

theorem enforceDomainCap_subset {order : IterationOrder setup.slots} {domain : String}
    {entry : DomainEntry setup.slots}
    (held : (setup.enforceDomainCap order sessions)[domain]? = some entry) :
    sessions[domain]? = some entry := by
  simp only [enforceDomainCap] at held
  split at held
  · exact held
  · exact erased_subset _ held

/-- Whatever order the map is scanned in, the excess is removed. -/
theorem size_enforceDomainCap_le (order : IterationOrder setup.slots) :
    (setup.enforceDomainCap order sessions).size ≤ maxTrackedDomains := by
  simp only [enforceDomainCap]
  split
  · assumption
  · generalize listed : ((order.arrange sessions.toList).map fun pair =>
      (pair.1, pair.2.lastSeen)) = byAge
    have sorted := List.mergeSort_perm byAge fun a b => a.2 ≤ b.2
    have keys : (byAge.map Prod.fst).Perm sessions.keys := by
      rw [← listed, List.map_map, ← ExtTreeMap.map_fst_toList_eq_keys]
      exact (order.perm _).map _
    have length : (byAge.mergeSort fun a b => a.2 ≤ b.2).length = sessions.size := by
      rw [sorted.length_eq, ← ExtTreeMap.length_keys, ← keys.length_eq, List.length_map]
    have counted := size_erased sessions
      ((byAge.mergeSort fun a b => a.2 ≤ b.2).take (sessions.size - maxTrackedDomains)) ?_ ?_
    · rw [List.length_take, length] at counted
      omega
    · rw [List.map_take]
      apply List.Nodup.sublist (List.take_sublist _ _)
      rw [((sorted.map Prod.fst).trans keys).nodup_iff]
      exact ExtTreeMap.nodup_keys
    · intro pair taken
      have member := (sorted.map Prod.fst).trans keys |>.mem_iff.mp
        (List.mem_map_of_mem (List.mem_of_mem_take taken))
      exact ExtTreeMap.mem_keys.mp member

theorem state?_report (sessions : setup.Sessions) (domain reported : String) (slot sessionId : Nat)
    (seen : Instant) (update : SessionState → SessionState) :
    setup.state? (setup.report sessions reported sessionId seen update) domain slot =
      if domain = reported ∧ slot = sessionId then (setup.state? sessions domain slot).map update
      else setup.state? sessions domain slot := by
  unfold state? report
  by_cases own : domain = reported
  · subst own
    cases found : sessions[domain]? with
    | none => simp [found]
    | some entry =>
      by_cases bound : sessionId < setup.slots
      · by_cases same : slot = sessionId
        · subst same
          simp [bound]
        · simp [bound, same, Ne.symm same]
      · by_cases same : slot = sessionId
        · subst same
          simp [bound]
        · simp [bound, same]
  · cases found : sessions[reported]? with
    | none => simp [own]
    | some entry => simp [own, ExtTreeMap.getElem?_insert, Ne.symm own]

theorem state?_evictStale {now : Instant} {domain : String} (slot : Nat)
    (kept : domain ∈ setup.evictStale sessions now) :
    setup.state? (setup.evictStale sessions now) domain slot =
      (setup.state? sessions domain slot).map (setup.evictExpired now) := by
  obtain ⟨entry, held⟩ := ExtTreeMap.mem_iff_isSome_getElem?.trans Option.isSome_iff_exists |>.mp kept
  have reset := held
  simp only [evictStale, ExtTreeMap.getElem?_filter', ExtTreeMap.getElem?_map] at reset
  obtain ⟨before, found, rfl⟩ := Option.map_eq_some_iff.mp (Option.filter_eq_some_iff.mp reset).1
  simp [state?, held, found]

theorem state?_acquire {order : IterationOrder setup.slots} {acquired domain : String}
    {now : Instant} (slot : Nat) (kept : domain ∈ (setup.acquire order sessions acquired now).1) :
    setup.state? (setup.acquire order sessions acquired now).1 domain slot =
      if domain = acquired then
        (setup.entryOrInsert sessions domain now).states[slot]?.map (setup.evictExpired now)
      else setup.state? sessions domain slot := by
  obtain ⟨entry, held⟩ := ExtTreeMap.mem_iff_isSome_getElem?.trans Option.isSome_iff_exists |>.mp kept
  have inserted : (sessions.insert acquired _)[domain]? = some entry := enforceDomainCap_subset held
  rw [ExtTreeMap.getElem?_insert] at inserted
  unfold state?
  rw [held]
  by_cases own : domain = acquired
  · subst own
    simp only [ReflCmp.compare_self, if_true, Option.some.injEq] at inserted
    subst inserted
    simp
  · have other : compare acquired domain ≠ .eq := fun same =>
      own (LawfulEqOrd.eq_of_compare same).symm
    rw [if_neg other] at inserted
    simp [own, inserted]

end Operations

/-! ### The ledger against the pool -/

/-- Every ban of the ledger is in force in the pool, with the same deadline. -/
def InForce (sessions : setup.Sessions) (ledger : Ledger) : Prop :=
  ∀ domain slot ban, ledger domain slot = some ban →
    ∃ state, setup.state? sessions domain slot = some state ∧ state.status ≠ .healthy ∧
      state.nextRetryTime = some ban.deadline ∧ state.lastFailureTime = some ban.lastFailure

/-- The time-to-live reset: the age at which the code lets go of a ban. -/
def expires (age : Duration) : Bool := setup.ttlDuration < age

section Ledger

variable {setup} {sessions : setup.Sessions} {ledger : Ledger}

/-- A slot whose ban is not forgotten survives the reset as it is. -/
theorem evictExpired_of_recent {now : Instant} {state : SessionState} {ban : Ban}
    (failed : state.lastFailureTime = some ban.lastFailure)
    (recent : setup.expires (now - ban.lastFailure) = false) :
    setup.evictExpired now state = state := by
  have within : ¬ setup.ttlDuration < now - ban.lastFailure := by simpa [expires] using recent
  simp [PoolSetup.evictExpired, failed, within]

theorem forget_eq_some {now : Instant} {known : Option Ban} {ban : Ban}
    (remembered : forget setup.expires now known = some ban) :
    known = some ban ∧ setup.expires (now - ban.lastFailure) = false := by
  obtain ⟨held, recent⟩ := Option.filter_eq_some_iff.mp remembered
  exact ⟨held, by simpa using recent⟩

theorem inForce_acquire (held : setup.InForce sessions ledger)
    (order : IterationOrder setup.slots) (acquired : String) (now : Instant) :
    setup.InForce (setup.acquire order sessions acquired now).1
      (setup.record setup.expires ledger (setup.acquire order sessions acquired now).1
        (.acquire order acquired now)) := by
  intro domain slot ban recorded
  simp only [record] at recorded
  obtain ⟨kept, recorded⟩ := Option.ite_none_left_eq_some.mp recorded
  rw [state?_acquire slot (not_not.mp kept)]
  by_cases own : domain = acquired
  · rw [if_pos own] at recorded ⊢
    obtain ⟨known, recent⟩ := forget_eq_some recorded
    obtain ⟨state, found, unhealthy, retry, failed⟩ := held domain slot ban known
    obtain ⟨entry, tracked, listed⟩ := Option.bind_eq_some_iff.mp found
    refine ⟨state, ?_, unhealthy, retry, failed⟩
    simp [entryOrInsert, tracked, listed, evictExpired_of_recent failed recent]
  · rw [if_neg own] at recorded ⊢
    exact held domain slot ban recorded

theorem inForce_evictStale (held : setup.InForce sessions ledger) (now : Instant) :
    setup.InForce (setup.evictStale sessions now)
      (setup.record setup.expires ledger (setup.evictStale sessions now) (.evictStale now)) := by
  intro domain slot ban recorded
  simp only [record] at recorded
  obtain ⟨kept, recorded⟩ := Option.ite_none_left_eq_some.mp recorded
  obtain ⟨known, recent⟩ := forget_eq_some recorded
  obtain ⟨state, found, unhealthy, retry, failed⟩ := held domain slot ban known
  refine ⟨state, ?_, unhealthy, retry, failed⟩
  rw [state?_evictStale slot (not_not.mp kept), found]
  simp [evictExpired_of_recent failed recent]

theorem inForce_reportSuccess (held : setup.InForce sessions ledger) (reported : String)
    (sessionId : Nat) (now : Instant) :
    setup.InForce (setup.reportSuccess sessions reported sessionId now)
      (setup.record setup.expires ledger (setup.reportSuccess sessions reported sessionId now)
        (.reportSuccess reported sessionId now)) := by
  intro domain slot ban recorded
  simp only [record] at recorded
  obtain ⟨other, known⟩ := Option.ite_none_left_eq_some.mp recorded
  rw [reportSuccess, state?_report, if_neg other]
  exact held domain slot ban known

/-- A failure leaves a slot unhealthy, and only a ban code moves its deadline. -/
theorem applyFailure_spec (setup : PoolSetup) (jitter : Nat → UInt64) (state : SessionState)
    (sessionId : Nat) (banning : Bool) (now : Instant)
    (unhealthy : banning = false → state.status ≠ .healthy) :
    let failed := setup.applyFailure jitter state sessionId banning now
    failed.status ≠ .healthy ∧ failed.lastFailureTime = some now ∧
      (banning = false → failed.nextRetryTime = state.nextRetryTime) := by
  unfold applyFailure
  cases banning with
  | true => simp
  | false =>
    by_cases third : 3 ≤ state.consecutiveFailures + 1
    · simp [third]
    · simp [third, unhealthy rfl]

theorem inForce_reportFailure (held : setup.InForce sessions ledger) (jitter : Nat → UInt64)
    (reported : String) (sessionId : Nat) (statusCode : UInt16) (seen now : Instant) :
    let after := setup.reportFailure jitter sessions reported sessionId statusCode seen now
    setup.InForce after (setup.record setup.expires ledger after
      (.reportFailure jitter reported sessionId statusCode seen now)) := by
  intro after domain slot ban recorded
  have states := state?_report sessions domain reported slot sessionId seen
    fun state => setup.applyFailure jitter state sessionId (shouldBan statusCode) now
  change setup.state? after domain slot = _ at states
  simp only [record] at recorded
  by_cases own : domain = reported ∧ slot = sessionId
  · rw [if_pos own] at recorded states
    cases banning : shouldBan statusCode with
    | true =>
      rw [banning] at states recorded
      -- the ledger takes the deadline that the slot has after the report
      obtain ⟨deadline, frozen, rfl⟩ := Option.map_eq_some_iff.mp recorded
      obtain ⟨state, found, retry⟩ := Option.bind_eq_some_iff.mp frozen
      have found' := found
      rw [states] at found'
      obtain ⟨before, -, rfl⟩ := Option.map_eq_some_iff.mp found'
      obtain ⟨unhealthy, failed, -⟩ := applyFailure_spec setup jitter before sessionId
        true now (by simp)
      exact ⟨_, found, unhealthy, retry, failed⟩
    | false =>
      rw [banning] at states recorded
      -- the slot keeps its deadline, and only the time of the failure moves
      obtain ⟨known, remembered, rfl⟩ := Option.map_eq_some_iff.mp recorded
      obtain ⟨state, found, unhealthy, retry, -⟩ := held domain slot known remembered
      obtain ⟨still, failed, moved⟩ := applyFailure_spec setup jitter state sessionId
        false now fun _ => unhealthy
      rw [states, found]
      exact ⟨_, rfl, still, (moved rfl).trans retry, failed⟩
  · -- another slot, and neither side has changed
    rw [if_neg own] at recorded states
    rw [states]
    exact held domain slot ban recorded

theorem inForce_call (held : setup.InForce sessions ledger) (call : PoolCall setup.slots) :
    setup.InForce (setup.call sessions call)
      (setup.record setup.expires ledger (setup.call sessions call) call) := by
  cases call with
  | acquire order domain now => exact inForce_acquire held order domain now
  | reportSuccess domain sessionId now => exact inForce_reportSuccess held domain sessionId now
  | reportFailure jitter domain sessionId statusCode seen now =>
    exact inForce_reportFailure held jitter domain sessionId statusCode seen now
  | evictStale now => exact inForce_evictStale held now

/-- Along a run every ban of the ledger stays in force in the pool. -/
theorem inForce_runCalls (calls : List (PoolCall setup.slots)) :
    let (sessions, ledger) := setup.runCalls setup.expires calls
    setup.InForce sessions ledger := by
  let Held (pool : setup.Sessions × Ledger) : Prop := setup.InForce pool.1 pool.2
  apply List.foldlRecOn (motive := Held) calls
  · intro domain slot ban known
    cases known
  · intro pool held call _
    exact inForce_call held call

end Ledger

/-- What `acquire` promises after a sequence of calls, where a ban is let go at the ages that
`forgets` names. -/
def AcquireSound (forgets : Duration → Bool) (calls : List (PoolCall setup.slots))
    (order : IterationOrder setup.slots) (domain : String) (now : Instant) : Prop :=
  let (sessions, ledger) := setup.runCalls forgets calls
  let (after, result) := setup.acquire order sessions domain now
  (result.isSome = true ↔
      ∃ slot < setup.slots, setup.Available now (setup.slotState sessions domain slot)) ∧
    (∀ sessionId, result = some sessionId → sessionId < setup.slots ∧
      ∀ ban, forget forgets now (ledger domain sessionId) = some ban → ban.deadline ≤ now) ∧
    after.size ≤ maxTrackedDomains

theorem entryOrInsert_getElem? (sessions : setup.Sessions) (domain : String) (now : Instant)
    {slot : Nat} (bound : slot < setup.slots) :
    (setup.entryOrInsert sessions domain now).states[slot]? =
      some (setup.slotState sessions domain slot) := by
  unfold entryOrInsert slotState state?
  cases sessions[domain]? <;> simp [bound]

/-- `acquire` finds a slot whenever one is available, and hands out a banned one only after its
deadline, after a success, after the eviction of the domain, or once the slot's last failure
is older than the time-to-live. -/
theorem acquire_sound (calls : List (PoolCall setup.slots)) (order : IterationOrder setup.slots)
    (domain : String) (now : Instant) :
    setup.AcquireSound setup.expires calls order domain now := by
  have inForce := inForce_runCalls calls
  revert inForce
  unfold AcquireSound
  obtain ⟨sessions, ledger⟩ := setup.runCalls setup.expires calls
  intro inForce
  have states : ∀ slot, (bound : slot < setup.slots) →
      ((setup.entryOrInsert sessions domain now).states.map (setup.evictExpired now))[slot] =
        setup.evictExpired now (setup.slotState sessions domain slot) := by
    intro slot bound
    have listed := setup.entryOrInsert_getElem? sessions domain now bound
    rw [Vector.getElem?_eq_getElem bound] at listed
    rw [Vector.getElem_map, Option.some.inj listed]
  refine ⟨?_, ?_, size_enforceDomainCap_le order⟩
  · refine findAvailable_isSome_iff.trans (exists_congr fun slot => and_congr_right fun bound => ?_)
    rw [Vector.getElem?_eq_getElem bound, Option.any_some, states slot bound]
    exact ready_evictExpired_iff
  · intro sessionId found
    obtain ⟨bound, usable⟩ := findAvailable_eq_some found
    refine ⟨bound, ?_⟩
    intro ban remembered
    obtain ⟨known, recent⟩ := forget_eq_some remembered
    obtain ⟨state, tracked, unhealthy, retry, failed⟩ := inForce domain sessionId ban known
    have same : setup.slotState sessions domain sessionId = state := by
      simp [slotState, tracked]
    rw [states sessionId bound, same, evictExpired_of_recent failed recent] at usable
    -- a ban that is not forgotten is in force, so only its deadline lets the slot through
    obtain ⟨status, failures, lastFailure, deadline⟩ := state
    cases status with
    | healthy => exact absurd rfl unhealthy
    | banned =>
      simp only at retry
      simpa [ready, bannedSessionReady, retry] using usable
    | retiring => cases usable

end PoolSetup

/-! A back-off longer than the time-to-live. -/

namespace LongBackoff

def setup : PoolSetup where
  poolSize := ⟨1, Nat.one_pos⟩
  baseDelay := 600000000000
  maxDelay := 600000000000
  maxExp := 6
  ttlDuration := 300000000000
  pickAnchor := 0

def scan : IterationOrder setup.slots := ⟨id, fun _ => .rfl⟩

/-- The only slot is banned at once, until 600 s. -/
def calls : List (PoolCall setup.slots) :=
  [.acquire scan "example.com" 0, .reportFailure UInt64.ofNat "example.com" 0 429 0 0]

end LongBackoff

open LongBackoff in
/-- At 301 s the slot is handed out, while its ban runs until 600 s. -/
theorem banned_slot_acquired :
    (setup.acquire scan (setup.runCalls (fun _ => false) calls).1 "example.com"
        301000000000).2 = some 0 ∧
      ((setup.runCalls (fun _ => false) calls).2 "example.com" 0).map Ban.deadline =
        some 600000000000 ∧
      ¬ ∀ (setup : PoolSetup) (calls : List (PoolCall setup.slots))
        (order : IterationOrder setup.slots) (domain : String) (now : Instant),
        (calls.flatMap setup.readings ++ [now]).Pairwise (· ≤ ·) →
          setup.AcquireSound (fun _ => false) calls order domain now := by
  have acquired : (setup.acquire scan (setup.runCalls (fun _ => false) calls).1 "example.com"
      301000000000).2 = some 0 := by decide +kernel
  have banned : ((setup.runCalls (fun _ => false) calls).2 "example.com" 0).map Ban.deadline =
      some 600000000000 := by decide +kernel
  refine ⟨acquired, banned, ?_⟩
  intro sound
  have promised := sound setup calls scan "example.com" 301000000000 (by decide)
  obtain ⟨ban, known, ends⟩ := Option.map_eq_some_iff.mp banned
  have ended := (promised.2.1 0 acquired).2 ban (Option.filter_eq_some_iff.mpr ⟨known, rfl⟩)
  rw [ends] at ended
  exact absurd ended (by decide)

end Webfang.Network
