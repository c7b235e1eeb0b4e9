import Webfang.Downloader.ChromiumPermits

/-!
# What memory a Chromium fetch starts under

The strategy `Full` with the reading that each fetch made at its check, and a record of the
starts. The check turns a fetch away from the critical threshold on. From the warning
threshold on it returns half of the free permits, and the caller takes its permit whatever
that number is.
-/
namespace Webfang.Downloader

open Library

/-- A Chromium fetch that took its permit: what its check read, and the permits in use from
then on. -/
structure Start where
  reading : Option UInt8
  inUse : Nat
  deriving DecidableEq, Repr

/-- The router `Full`, the reading of each fetch's check, and the starts so far. -/
structure Watched where
  state : RouterState
  readings : Nat → Option UInt8
  starts : List Start

def RouterState.inUse (s : RouterState) : Nat := s.governor.maxPermits - s.governor.available

/-- The fetch that an event is about. -/
def Event.target : Event → Option Nat
  | .answer index _ | .check index _ | .grant index | .abort index | .drop index => some index
  | .call _ _ | .shutdown => none

namespace FetchRouter

/-- What one event can do in `Full`, with the reading of a check that passes. -/
inductive FullSteps (s : RouterState) : Event → RouterState → Prop
  | called (hatch host : Option String) :
      FullSteps s (.call hatch host) { s with fetches := s.fetches ++ [full.opened hatch host] }
  | cancelled : FullSteps s .shutdown { s with governor := s.governor.cancel }
  | finished {e : Event} {index : Nat} {fetch : Fetch} (result : Option Fetched)
      (found : s.fetches[index]? = some fetch) (about : e.target = some index)
      (noGrant : ∀ index, e ≠ .grant index) : FullSteps s e (s.finish index fetch result)
  | passed {index : Nat} {usage : UInt8} {fetch : Fetch} (found : s.fetches[index]? = some fetch)
      (below : usage < criticalThreshold) :
      FullSteps s (.check index usage) (s.moveTo index { fetch with phase := .acquiring })
  | granted {index : Nat} {fetch : Fetch} (found : s.fetches[index]? = some fetch)
      (acquiring : fetch.phase = .acquiring) (free : 0 < s.governor.available) :
      FullSteps s (.grant index)
        ({ s with governor := { s.governor with available := s.governor.available - 1 } }.moveTo index
          ⟨.rendering, true⟩)

theorem full_cases {s s' : RouterState} {e : Event} (taken : full.Step s e s') : FullSteps s e s' := by
  cases e with
  | call hatch host => cases taken; exact .called hatch host
  | shutdown => cases taken; exact .cancelled
  | answer index result =>
    obtain ⟨fetch, found, taken⟩ := Option.bind_eq_some_iff.mp taken
    cases here : fetch.phase <;> simp only [here, reduceCtorEq, Option.some.injEq] at taken
    case rendering => subst taken; exact .finished _ found rfl nofun
  | check index usage =>
    obtain ⟨fetch, found, taken⟩ := Option.bind_eq_some_iff.mp taken
    cases here : fetch.phase <;> simp only [here, reduceCtorEq, Option.some.injEq] at taken
    case beforeAcquire =>
      subst taken
      -- the check ends the fetch, or sends it on to the semaphore
      cases next : HybridRouter.checkMemory s.governor usage with
      | done result => exact .finished _ found rfl nofun
      | escalate => exact .passed found (HybridRouter.checkMemory_escalate.mp next)
  | grant index =>
    obtain ⟨fetch, found, taken⟩ := Option.bind_eq_some_iff.mp taken
    cases here : fetch.phase <;> simp only [here, reduceCtorEq] at taken
    case acquiring =>
      obtain ⟨governor, granted, taken⟩ := Option.bind_eq_some_iff.mp taken
      obtain ⟨free, same⟩ := Option.ite_none_right_eq_some.mp granted
      cases same
      cases taken
      exact .granted found here free
  | abort index =>
    obtain ⟨fetch, found, taken⟩ := Option.bind_eq_some_iff.mp taken
    cases here : fetch.phase <;> simp only [here, reduceCtorEq] at taken
    case acquiring =>
      obtain ⟨e, -, taken⟩ := Option.bind_eq_some_iff.mp taken
      cases taken
      exact .finished _ found rfl nofun
  | drop index =>
    obtain ⟨fetch, found, taken⟩ := Option.bind_eq_some_iff.mp taken
    obtain ⟨-, taken⟩ := Option.ite_none_left_eq_some.mp taken
    cases taken
    exact .finished _ found rfl nofun

/-- A fetch waits for its permit after a step only if it did before, or just passed its check. -/
theorem acquiring_before {s s' : RouterState} {e : Event} {index : Nat} {fetch : Fetch}
    (taken : full.Step s e s') (found : s'.fetches[index]? = some fetch) (waits : fetch.phase = .acquiring) :
    (s.fetches[index]? = some fetch ∧ ∀ usage, e ≠ .check index usage) ∨
      ∃ usage, e = .check index usage ∧ usage < criticalThreshold := by
  cases full_cases taken with
  | called hatch host =>
    refine .inl ⟨?_, fun usage => by simp⟩
    simp only [List.getElem?_append] at found
    split at found
    · exact found
    · -- a new fetch is refused, or starts before its check
      have new := List.mem_singleton.mp (List.mem_of_getElem? found)
      subst new
      unfold opened at waits
      split at waits <;> cases waits
  | cancelled => exact .inl ⟨found, fun usage => by simp⟩
  | @finished _ other before result other_found about _ =>
    simp only [RouterState.finish, List.getElem?_set] at found
    split at found
    next => split at found <;> cases found; cases waits
    next elsewhere =>
      refine .inl ⟨found, ?_⟩
      rintro usage rfl
      exact elsewhere (Option.some.inj about).symm
  | @passed other usage before other_found below =>
    by_cases same : other = index
    · subst same
      exact .inr ⟨usage, rfl, below⟩
    · rw [RouterState.moveTo, List.getElem?_set_ne same] at found
      refine .inl ⟨found, ?_⟩
      rintro usage again
      cases again
      exact same rfl
  | @granted other before other_found acquiring free =>
    refine .inl ⟨?_, fun usage => by simp⟩
    simp only [RouterState.moveTo, List.getElem?_set] at found
    split at found
    next => split at found <;> cases found; cases waits
    next => exact found

end FetchRouter

namespace Watched

open FetchRouter

def start (maxPermits : Nat) : Watched := ⟨.start maxPermits, fun _ => none, []⟩

variable (w : Watched)

def readingsAfter : Event → Nat → Option UInt8
  | .check index usage => Function.update w.readings index (some usage)
  | _ => w.readings

def startsAfter (state : RouterState) : Event → List Start
  | .grant index => w.starts ++ [⟨w.readings index, state.inUse⟩]
  | _ => w.starts

/-- One event of the router, written down. -/
def step (e : Event) : Option Watched :=
  (FetchRouter.full.step w.state e).map fun state => ⟨state, w.readingsAfter e, w.startsAfter state e⟩

def Step (w : Watched) (e : Event) (w' : Watched) : Prop := w.step e = some w'

variable {w w' : Watched} {e : Event} {index maxPermits : Nat} {guard : Watched → Event → Prop}

theorem step_state (taken : Step w e w') : FetchRouter.full.Step w.state e w'.state ∧
    w'.readings = w.readingsAfter e ∧ w'.starts = w.startsAfter w'.state e := by
  obtain ⟨state, stepped, rfl⟩ := Option.map_eq_some_iff.mp taken
  exact ⟨stepped, rfl, rfl⟩

theorem reachable_balanced (reached : Reachable Step guard (.start maxPermits) w) :
    FetchRouter.full.Balanced w.state ∧ w.state.governor.maxPermits = max maxPermits 1 := by
  apply reached.invariant (motive := fun w => full.Balanced w.state ∧
    w.state.governor.maxPermits = max maxPermits 1) ⟨.start maxPermits, rfl⟩
  rintro before e after ⟨balanced, budget⟩ - taken
  obtain ⟨kept, same⟩ := (step_cases (step_state taken).1).balanced balanced
  exact ⟨kept, same.trans budget⟩

/-- Whoever waits for a permit read less than the critical threshold. -/
def Checked (w : Watched) : Prop :=
  ∀ index fetch, w.state.fetches[index]? = some fetch → fetch.phase = .acquiring →
    ∃ usage, w.readings index = some usage ∧ usage < criticalThreshold

theorem Checked.step (checked : Checked w) (taken : Step w e w') : Checked w' := by
  intro index fetch found waits
  obtain ⟨stepped, readings, -⟩ := step_state taken
  rcases acquiring_before stepped found waits with ⟨before, unread⟩ | ⟨usage, rfl, below⟩
  · -- its own reading stays as it was
    obtain ⟨usage, read, below⟩ := checked index fetch before waits
    refine ⟨usage, ?_, below⟩
    rw [readings, ← read]
    cases e with
    | check other reading =>
      have elsewhere : index ≠ other := by
        rintro rfl
        exact unread reading rfl
      exact Function.update_of_ne elsewhere _ _
    | _ => rfl
  · exact ⟨usage, by rw [readings]; exact Function.update_self .., below⟩

theorem reachable_checked (reached : Reachable Step guard (.start maxPermits) w) : Checked w :=
  reached.invariant (by intro index fetch found; simp [Watched.start, RouterState.start] at found)
    fun _ _ _ checked _ taken => checked.step taken

/-! ### The starts -/

/-- A step starts no Chromium fetch, or one that passed its check; it adds one to the permits
in use. -/
theorem step_starts (balanced : full.Balanced w.state) (checked : Checked w) (taken : Step w e w') :
    (w'.starts = w.starts ∧ ∀ index, e ≠ .grant index) ∨
      ∃ index usage, e = .grant index ∧ w.readings index = some usage ∧ usage < criticalThreshold ∧
        0 < w.state.governor.available ∧ w'.starts = w.starts ++ [⟨some usage, w.state.inUse + 1⟩] := by
  obtain ⟨stepped, -, starts⟩ := step_state taken
  have fits := balanced.permits
  generalize w'.state = after at stepped starts
  rw [starts]
  cases full_cases stepped with
  | called | cancelled | passed => exact .inl ⟨rfl, nofun⟩
  | finished result found about noGrant =>
    refine .inl ⟨?_, noGrant⟩
    cases e with
    | grant index => exact absurd rfl (noGrant index)
    | _ => rfl
  | @granted index fetch found acquiring free =>
    obtain ⟨usage, read, below⟩ := checked index fetch found acquiring
    refine .inr ⟨index, usage, rfl, read, below, free, ?_⟩
    simp only [startsAfter, read, RouterState.inUse, RouterState.moveTo]
    congr 3
    omega

end Watched

def Start.Uncritical (start : Start) : Prop := ∃ usage, start.reading = some usage ∧ usage < criticalThreshold

/-- After a reading from the warning threshold on, at most half of the budget is in use. -/
def Start.Halved (budget : Nat) (start : Start) : Prop :=
  ∀ usage, start.reading = some usage → warningThreshold ≤ usage → 2 * start.inUse ≤ budget

namespace Watched

/-- A fetch whose check read the warning threshold or more takes its permit only while fewer than
half of the budget run Chromium. -/
def KeepsHalf (w : Watched) (e : Event) : Prop :=
  ∀ index usage, e = .grant index → w.readings index = some usage → warningThreshold ≤ usage →
    2 * (w.state.running + 1) ≤ w.state.governor.maxPermits

variable {w w' : Watched} {e : Event} {maxPermits : Nat} {guard : Watched → Event → Prop}

theorem reachable_uncritical (reached : Reachable Step guard (.start maxPermits) w) :
    ∀ start ∈ w.starts, start.Uncritical := by
  have known : ∀ w, Reachable Step guard (.start maxPermits) w → FetchRouter.full.Balanced w.state ∧ Checked w :=
    fun _ reached => ⟨(reachable_balanced reached).1, reachable_checked reached⟩
  apply reached.invariant_of known
  · exact nofun
  · rintro before e after ⟨balanced, checked⟩ sound - taken
    rcases step_starts balanced checked taken with ⟨same, -⟩ | ⟨_, usage, -, -, below, -, more⟩
    · rwa [same]
    · rw [more]
      exact List.forall_mem_append.mpr ⟨sound, by simpa using ⟨usage, rfl, below⟩⟩

/-- Half of the budget: the start that a grant adds keeps to it exactly when the grant met the
condition. -/
theorem grant_halved (balanced : FetchRouter.full.Balanced w.state) (checked : Checked w)
    (halved : ∀ start ∈ w.starts, start.Halved w.state.governor.maxPermits) (taken : Step w e w') :
    (∀ start ∈ w'.starts, start.Halved w.state.governor.maxPermits) ↔ KeepsHalf w e := by
  have fits := balanced.permits
  rw [← balanced.running_eq] at fits
  rcases step_starts balanced checked taken with ⟨same, noGrant⟩ | ⟨index, usage, rfl, read, -, free, more⟩
  · rw [same]
    exact iff_of_true halved fun index _ granted => absurd granted (noGrant index)
  · have last : Start.Halved w.state.governor.maxPermits ⟨some usage, w.state.inUse + 1⟩ ↔
        KeepsHalf w (.grant index) := by
      unfold RouterState.inUse
      constructor
      · intro kept other reading granted reread warned
        cases granted
        rw [read] at reread
        have half := kept _ reread warned
        simp only at half
        omega
      · intro kept reading same warned
        cases same
        have half := kept index usage rfl read warned
        simp only
        omega
    rw [more, List.forall_mem_append, List.forall_mem_singleton, last]
    exact and_iff_right halved

/-- No Chromium fetch starts after a critical reading. In every run whose warned fetches take
their permits only while fewer than half of the budget run Chromium, each of them starts with at
most half of it in use; and a run that has kept to this so far breaks it with the first grant
that does not meet the condition. -/
theorem starts_halved (maxPermits : Nat) :
    (∀ w, Reachable Step (fun _ _ => True) (.start maxPermits) w → ∀ start ∈ w.starts, start.Uncritical) ∧
    (∀ w, Reachable Step KeepsHalf (.start maxPermits) w →
      ∀ start ∈ w.starts, start.Uncritical ∧ start.Halved (max maxPermits 1)) ∧
    ∀ w e w', Reachable Step KeepsHalf (.start maxPermits) w → Step w e w' → ¬ KeepsHalf w e →
      ∃ start ∈ w'.starts, ¬ start.Halved (max maxPermits 1) := by
  have halved : ∀ w, Reachable Step KeepsHalf (.start maxPermits) w →
      ∀ start ∈ w.starts, start.Halved (max maxPermits 1) := by
    intro w reached
    have known : ∀ w, Reachable Step KeepsHalf (.start maxPermits) w → (FetchRouter.full.Balanced w.state ∧
        w.state.governor.maxPermits = max maxPermits 1) ∧ Checked w :=
      fun _ reached => ⟨reachable_balanced reached, reachable_checked reached⟩
    apply reached.invariant_of known
    · exact nofun
    · rintro before e after ⟨⟨balanced, budget⟩, checked⟩ sound met taken
      rw [← budget] at sound ⊢
      exact (grant_halved balanced checked sound taken).mpr met
  refine ⟨fun w => reachable_uncritical, fun w reached start member => ?_, fun w e w' reached taken broken => ?_⟩
  · exact ⟨reachable_uncritical reached start member, halved w reached start member⟩
  · obtain ⟨balanced, budget⟩ := reachable_balanced reached
    have sound := halved w reached
    rw [← budget] at sound ⊢
    have exceeded := mt (grant_halved balanced (reachable_checked reached) sound taken).mp broken
    simpa only [not_forall, exists_prop] using exceeded

end Watched

/-! A budget of one permit, and one of two, at 85 percent of the memory. -/

namespace WarnedStart

open Watched

/-- A fetch from its call into Chromium. -/
def rendered : List Event := [.call none (some "a.test"), .check 0 85, .grant 0]

def runTo (maxPermits : Nat) : Option Watched := runEvents Watched.step (.start maxPermits) rendered

/-- The only permit goes to a fetch that was warned. -/
theorem warned_takes_last_permit : (runTo 1).map Watched.starts = some [⟨some 85, 1⟩] ∧
    ¬ ∀ w, Reachable Watched.Step (fun _ _ => True) (.start 1) w →
      ∀ start ∈ w.starts, start.Uncritical ∧ start.Halved (max 1 1) := by
  have recorded : (runTo 1).map Watched.starts = some [⟨some 85, 1⟩] := by decide
  refine ⟨recorded, fun always => ?_⟩
  obtain ⟨w, ran, starts⟩ := Option.map_eq_some_iff.mp recorded
  have reached : Reachable Watched.Step (fun _ _ => True) (.start 1) w :=
    Reachable.run .start (fun _ _ _ => trivial) ran
  have halved : Start.Halved (max 1 1) ⟨some 85, 1⟩ := (always w reached _ (by simp [starts])).2
  exact absurd (halved 85 rfl (by decide)) (by decide)

/-- Fewer than half of the permits are in use, for a grant. -/
def hasRoom (w : Watched) : Event → Bool
  | .grant _ => decide (2 * (w.state.running + 1) ≤ w.state.governor.maxPermits)
  | _ => true

theorem first_of_two_permits : ∃ w, Reachable Watched.Step KeepsHalf (.start 2) w ∧
    w.starts = [⟨some 85, 1⟩] ∧ ∀ start ∈ w.starts, start.Uncritical ∧ start.Halved (max 2 1) := by
  have recorded : ((runEvents (fun w e => if hasRoom w e then w.step e else none) (.start 2)
      rendered).map Watched.starts) = some [⟨some 85, 1⟩] := by decide
  obtain ⟨w, ran, starts⟩ := Option.map_eq_some_iff.mp recorded
  have reached : Reachable Watched.Step KeepsHalf (.start 2) w := by
    refine Reachable.run_checked .start (fun w e room => ?_) ran
    rintro index usage rfl - -
    exact of_decide_eq_true room
  exact ⟨w, reached, starts, (starts_halved 2).2.1 w reached⟩

end WarnedStart

end Webfang.Downloader
