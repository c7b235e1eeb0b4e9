import Webfang.Downloader.FetchRouter

/-!
# Chromium within its permits

The governor's permits are never lost, and `Full` renders under one each. The hybrid router
takes none, so its Chromium fetches stay within the budget only while no escalation enters a
full house.
-/
namespace Webfang.Downloader

open Library

namespace FetchRouter

variable {router : FetchRouter} {s s' : RouterState} {e : Event}

def fits : FetchRouter → Phase → Bool
  | .hybrid _, .layer1 | .hybrid _, .beforeLayer2 | .hybrid _, .layer2
  | .hybrid _, .beforeLayer3 | .hybrid _, .layer3 => true
  | .full, .beforeAcquire | .full, .acquiring | .full, .rendering => true
  | _, .ended _ => true
  | _, _ => false

def isRendering : Phase → Bool
  | .rendering => true
  | _ => false

/-- Every permit is free or owned by a fetch that renders. -/
structure Balanced (router : FetchRouter) (s : RouterState) : Prop where
  permits : s.governor.available + s.held = s.governor.maxPermits
  owners : ∀ fetch ∈ s.fetches, fetch.permit = isRendering fetch.phase
  fits : ∀ fetch ∈ s.fetches, router.fits fetch.phase = true

theorem Balanced.start (maxPermits : Nat) : router.Balanced (.start maxPermits) :=
  ⟨rfl, nofun, nofun⟩

theorem opened_permit (router : FetchRouter) (hatch host : Option String) :
    (router.opened hatch host).permit = false ∧ isRendering (router.opened hatch host).phase = false ∧
      (router.opened hatch host).phase.inChromium = false ∧
      router.fits (router.opened hatch host).phase = true := by
  unfold opened
  split
  · cases router <;> exact ⟨rfl, rfl, rfl, rfl⟩
  · cases router <;> exact ⟨rfl, rfl, rfl, rfl⟩

theorem Follows.phases {index : Nat} {before after : Phase} (follows : router.Follows e index before after) :
    isRendering before = false ∧ isRendering after = false ∧ router.fits after = true := by
  cases follows <;> exact ⟨rfl, rfl, rfl⟩

theorem Follows.enters {layers : HybridRouter} {index : Nat} {before after : Phase}
    (follows : Follows (.hybrid layers) e index before after) (enters : after.inChromium = true) :
    ∃ usage, e = .check index usage ∧ usage < criticalThreshold ∧ before = .beforeLayer3 := by
  cases follows with
  | memory3 below => exact ⟨_, rfl, below, rfl⟩
  | shell | memory2 | gaveUp => cases enters

theorem Steps.balanced (steps : router.Steps s e s') (balanced : router.Balanced s) :
    router.Balanced s' ∧ s'.governor.maxPermits = s.governor.maxPermits := by
  obtain ⟨permits, owners, fits⟩ := balanced
  cases steps with
  | called hatch host =>
    -- a fetch begins without a permit
    obtain ⟨unowned, waiting, -, fitting⟩ := opened_permit router hatch host
    refine ⟨⟨?_, ?_, ?_⟩, rfl⟩
    · simpa [RouterState.held, unowned] using permits
    · exact List.forall_mem_append.mpr ⟨owners, by simp [unowned, waiting]⟩
    · exact List.forall_mem_append.mpr ⟨fits, by simp [fitting]⟩
  | cancelled => exact ⟨⟨permits, owners, fits⟩, rfl⟩
  | @finished index fetch result found =>
    -- whatever the fetch held goes back with it
    have count := RouterState.held_finish found result
    have free := RouterState.available_finish s index fetch result
    refine ⟨⟨?_, Counting.forall_mem_set owners rfl, Counting.forall_mem_set fits ?_⟩,
      RouterState.maxPermits_finish result⟩
    · rw [RouterState.maxPermits_finish]
      omega
    · cases router <;> rfl
  | @moved index fetch phase found follows =>
    -- neither phase is one that owns a permit
    obtain ⟨before, after, fitting⟩ := follows.phases
    have unowned : fetch.permit = false := (owners fetch (List.mem_of_getElem? found)).trans before
    have count := RouterState.held_moveTo found { fetch with phase }
    simp only [unowned, Bool.false_eq_true, if_false] at count
    refine ⟨⟨?_, Counting.forall_mem_set owners (unowned.trans after.symm),
      Counting.forall_mem_set fits fitting⟩, rfl⟩
    change s.governor.available + (s.moveTo index _).held = s.governor.maxPermits
    rw [unowned]
    omega
  | @granted index fetch found acquiring free =>
    -- one permit goes from the free ones to the fetch
    have member := List.mem_of_getElem? found
    have unowned : fetch.permit = false := by rw [owners fetch member, acquiring]; rfl
    have full : router.fits .rendering = true := by
      have fitting := fits fetch member
      rw [acquiring] at fitting
      cases router <;> first | rfl | cases fitting
    have count := RouterState.held_moveTo found ⟨.rendering, true⟩
    simp only [unowned, Bool.false_eq_true, if_false, if_true] at count
    refine ⟨⟨?_, Counting.forall_mem_set owners rfl, Counting.forall_mem_set fits full⟩, rfl⟩
    change s.governor.available - 1 + (s.moveTo index ⟨.rendering, true⟩).held = s.governor.maxPermits
    omega

/-! ### The bound -/

/-- No more Chromium fetches than permits. -/
def Bounded (s : RouterState) : Prop := s.running ≤ s.governor.maxPermits

/-- Every permit taken is back, but for the fetches that go on. -/
def PermitsReturned (s : RouterState) : Prop :=
  s.governor.available + s.held = s.governor.maxPermits ∧
    ∀ fetch ∈ s.fetches, fetch.phase.hasEnded = true → fetch.permit = false

/-- The event does not send a hybrid fetch into layer 3 while as many Chromium fetches run as
there are permits. -/
def WithinBudget (s : RouterState) (e : Event) : Prop :=
  ∀ index usage, e = .check index usage → usage < criticalThreshold →
    s.phase index = some .beforeLayer3 → s.running < s.governor.maxPermits

theorem Balanced.returned (balanced : router.Balanced s) : PermitsReturned s := by
  refine ⟨balanced.permits, fun fetch member ended => ?_⟩
  rw [balanced.owners fetch member]
  cases here : fetch.phase <;> simp [here, Phase.hasEnded, isRendering] at ended ⊢

/-- In `Full` a Chromium fetch is one that owns a permit. -/
theorem Balanced.bounded (balanced : Balanced .full s) : Bounded s := by
  have same : s.running = s.held := by
    refine List.countP_congr fun fetch member => ?_
    have fitting := balanced.fits fetch member
    rw [balanced.owners fetch member]
    cases here : fetch.phase <;> simp [here, Phase.inChromium, isRendering, FetchRouter.fits] at fitting ⊢
  have permits := balanced.permits
  unfold Bounded
  omega

/-- In the hybrid router the only way into Chromium is the check before layer 3. -/
theorem Steps.bounded {layers : HybridRouter} (steps : Steps (.hybrid layers) s e s')
    (balanced : Balanced (.hybrid layers) s) (bounded : Bounded s) (within : WithinBudget s e) :
    Bounded s' := by
  unfold Bounded at bounded ⊢
  cases steps with
  | called hatch host =>
    have waiting := (opened_permit (.hybrid layers) hatch host).2.2.1
    simpa [RouterState.running, waiting] using bounded
  | cancelled => exact bounded
  | finished result found =>
    have count := RouterState.running_finish found result
    rw [RouterState.maxPermits_finish]
    omega
  | @moved index fetch phase found follows =>
    have count : (s.moveTo index { fetch with phase }).running +
        (if fetch.phase.inChromium then 1 else 0) = s.running + if phase.inChromium then 1 else 0 :=
      RouterState.running_moveTo found _
    change (s.moveTo index _).running ≤ s.governor.maxPermits
    by_cases enters : phase.inChromium = true
    · -- the check that let it in was made with room for one more
      obtain ⟨usage, rfl, below, here⟩ := follows.enters enters
      have room := within index usage rfl below (by simp [RouterState.phase, found, here])
      rw [if_pos enters] at count
      omega
    · rw [if_neg enters] at count
      omega
  | granted found acquiring free =>
    -- no hybrid fetch waits for a permit
    have fitting := balanced.fits _ (List.mem_of_getElem? found)
    rw [acquiring] at fitting
    cases fitting

theorem reachable_balanced {guard : RouterState → Event → Prop} {maxPermits : Nat}
    (reached : Reachable router.Step guard (.start maxPermits) s) : router.Balanced s :=
  reached.invariant (.start maxPermits) fun _ _ _ balanced _ taken =>
    ((step_cases taken).balanced balanced).1

/-! ### Too many escalations -/

def blankPage : FetchedPage := ⟨"https://a.test/", "", 200, ∅, []⟩

section Overrun

variable {layers : HybridRouter} (noText : layers.detector.parseDocument "" = [])
include noText

/-- One more fetch goes from its call into layer 3, whatever the others do. -/
theorem escalates (s : RouterState) {maxPermits : Nat}
    (reached : Reachable (Step (.hybrid layers)) (fun _ _ => True) (.start maxPermits) s) :
    Reachable (Step (.hybrid layers)) (fun _ _ => True) (.start maxPermits) (s.plus .layer3) := by
  have shell : layers.afterLayer1 (.ok blankPage) = .escalate :=
    HybridRouter.afterLayer1_escalate.mpr ⟨_, rfl, _, SpaDetector.detectSpa_blank noText⟩
  have memory : HybridRouter.checkMemory s.governor 0 = .escalate :=
    HybridRouter.checkMemory_escalate.mpr (by decide)
  have called : Step (.hybrid layers) s (.call (some "1") none) (s.plus .layer1) := rfl
  have answered : Step (.hybrid layers) (s.plus .layer1) (.answer s.fetches.length (.ok blankPage))
      (s.plus .beforeLayer2) := by
    simp [Step, step, RouterState.plus, RouterState.follow, RouterState.moveTo, shell]
  have checked : Step (.hybrid layers) (s.plus .beforeLayer2) (.check s.fetches.length 0)
      (s.plus .layer2) := by
    simp [Step, step, RouterState.plus, RouterState.follow, RouterState.moveTo, memory]
  have failed : Step (.hybrid layers) (s.plus .layer2)
      (.answer s.fetches.length (.error (.timeout 30))) (s.plus .beforeLayer3) := by
    simp [Step, step, RouterState.plus, RouterState.follow, RouterState.moveTo,
      HybridRouter.afterLayer2]
  have entered : Step (.hybrid layers) (s.plus .beforeLayer3) (.check s.fetches.length 0)
      (s.plus .layer3) := by
    simp [Step, step, RouterState.plus, RouterState.follow, RouterState.moveTo, memory]
  exact .step (.step (.step (.step (.step reached trivial called) trivial answered) trivial checked)
    trivial failed) trivial entered

/-- Any number of Chromium fetches can run at once. -/
theorem overrun (maxPermits n : Nat) :
    ∃ s, Reachable (Step (.hybrid layers)) (fun _ _ => True) (.start maxPermits) s ∧
      s.running = n ∧ s.governor = .withMaxInstances maxPermits := by
  induction n with
  | zero => exact ⟨_, .start, rfl, rfl⟩
  | succ n ih =>
    obtain ⟨s, reached, count, governor⟩ := ih
    refine ⟨_, escalates noText s reached, ?_, governor⟩
    simpa [RouterState.running, RouterState.plus, Phase.inChromium] using count

end Overrun

/-- In every run whose escalations enter layer 3 only while fewer Chromium fetches run than
there are permits, the bound holds and no permit is lost; every run is such a run of `Full`,
and of no hybrid router. -/
theorem chromium_within_permits (router : FetchRouter) (maxPermits : Nat)
    (noText : ∀ layers, router = .hybrid layers → layers.detector.parseDocument "" = []) :
    (∀ s, Reachable router.Step WithinBudget (.start maxPermits) s → Bounded s ∧ PermitsReturned s) ∧
    ((∀ s, Reachable router.Step (fun _ _ => True) (.start maxPermits) s →
      Bounded s ∧ PermitsReturned s) ↔ router = .full) := by
  refine ⟨fun s reached => ⟨?_, (reachable_balanced reached).returned⟩, ?_, ?_⟩
  · cases router with
    | full => exact (reachable_balanced reached).bounded
    | hybrid layers =>
      refine reached.invariant_of (fun _ => reachable_balanced) (Nat.zero_le _) ?_
      exact fun _ _ _ balanced bounded within taken => (step_cases taken).bounded balanced bounded within
  · intro always
    cases router with
    | full => rfl
    | hybrid layers =>
      obtain ⟨s, reached, count, governor⟩ := overrun (noText layers rfl) maxPermits
        ((ResourceGovernor.withMaxInstances maxPermits).maxPermits + 1)
      have bounded : s.running ≤ s.governor.maxPermits := (always s reached).1
      rw [governor] at bounded
      omega
  · rintro rfl s reached
    exact ⟨(reachable_balanced reached).bounded, (reachable_balanced reached).returned⟩

/-- Under `Full` the fetches with a permit are those that run Chromium. -/
theorem Balanced.running_eq (balanced : FetchRouter.full.Balanced s) : s.running = s.held :=
  List.countP_congr fun fetch member => by
    have fitting := balanced.fits fetch member
    rw [balanced.owners fetch member]
    cases here : fetch.phase <;> simp_all [Phase.inChromium, isRendering, FetchRouter.fits]

end FetchRouter

/-! A budget of one permit and two shells. -/

namespace TwoShells

open FetchRouter

def router : FetchRouter := .hybrid ChallengeAtLayer2.router

/-- A fetch from its call into layer 3: layer 2 fails. -/
def escalation (index : Nat) : List Event :=
  [.call none (some "a.test"), .answer index (.ok blankPage), .check index 50,
    .answer index (.error (.timeout 30)), .check index 50]

def runTo (events : List Event) : Option RouterState := runEvents router.step (.start 1) events

/-- Nothing stops the second fetch, and no permit is ever taken. -/
theorem two_chromiums_run : (runTo (escalation 0 ++ escalation 1)).map
        (fun s => (s.running, s.governor.maxPermits, s.governor.available)) = some (2, 1, 1) ∧
    ¬ ∀ s, Reachable router.Step (fun _ _ => True) (.start 1) s → Bounded s := by
  have counts : (runTo (escalation 0 ++ escalation 1)).map
      (fun s => (s.running, s.governor.maxPermits, s.governor.available)) = some (2, 1, 1) := by
    decide +kernel
  refine ⟨counts, fun always => ?_⟩
  obtain ⟨s, ran, values⟩ := Option.map_eq_some_iff.mp counts
  have reached : Reachable router.Step (fun _ _ => True) (.start 1) s :=
    Reachable.run .start (fun _ _ _ => trivial) ran
  have bounded : s.running ≤ s.governor.maxPermits := always s reached
  simp only [Prod.mk.injEq] at values
  omega

/-- The first fetch ends before the second one enters layer 3. -/
def turns : List Event :=
  escalation 0 ++ [.answer 0 (.error (.internal "tab crashed"))] ++ escalation 1

def hasRoom (s : RouterState) : Event → Bool
  | .check _ _ => decide (s.running < s.governor.maxPermits)
  | _ => true

theorem turns_stay_within : ∃ s, Reachable router.Step WithinBudget (.start 1) s ∧
    s.running = 1 ∧ Bounded s ∧ PermitsReturned s := by
  have counts : ((runEvents (fun s e => if hasRoom s e then router.step s e else none) (.start 1)
      turns).map RouterState.running) = some 1 := by decide +kernel
  obtain ⟨s, ran, running⟩ := Option.map_eq_some_iff.mp counts
  have reached : Reachable router.Step WithinBudget (.start 1) s := by
    refine Reachable.run_checked .start (fun s e room => ?_) ran
    rintro index usage rfl - -
    exact of_decide_eq_true room
  refine ⟨s, reached, running, (chromium_within_permits router 1 ?_).1 s reached⟩
  rintro layers same
  cases same
  decide

/-- Of two shells one has failed; a third fetch waits and is dropped. -/
def fullRun : List Event :=
  [.call none (some "a.test"), .check 0 50, .grant 0, .call none (some "b.test"), .check 1 50, .grant 1,
    .call none (some "c.test"), .check 2 50, .answer 0 (.error (.internal "tab crashed")), .drop 2]

end TwoShells

end Webfang.Downloader
