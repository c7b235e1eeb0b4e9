import Webfang.Http.ScreenedBody

/-!
# What the retries come to

The loop of `retry_with_backoff` keeps whether the last request that got no answer was a timeout. An
answer with a retryable status leaves that as it is, so a loop that runs out on such answers can end
with the error of a timeout before them. The delay before an attempt is computed in 64 bits and capped
afterwards, so it is the one that is meant only while no product leaves these bits.
-/
namespace Webfang.Http

open Library

/-! ### Outcomes of an attempt -/

inductive AttemptOutcome where
  | success (response : Downloader.Response)
  | retryable
  | rejected (status : UInt16)
  | timeout
  | failed

def AttemptOutcome.asksAgain : AttemptOutcome → Bool
  | .success _ | .rejected _ => false
  | .retryable | .timeout | .failed => true

def RetryPolicy.outcome (policy : RetryPolicy) : Answer → AttemptOutcome
  | .ok response =>
    if response.isSuccess then .success response
    else if policy.retryable response.status then .retryable
    else .rejected response.status
  | .error e => if e.isTimeout then .timeout else .failed

def Action.isRequest : Action → Bool
  | .request _ => true
  | _ => false

def LastTimedOut (outcome : Nat → AttemptOutcome) (n : Nat) : Prop := 0 < n ∧ outcome (n - 1) = .timeout

/-- What the loop is to do about these outcomes, where at most `max` attempts are to be made. -/
structure Settled (client : HttpClient) (policy : RetryPolicy) (outcome : Nat → AttemptOutcome)
    (acts : List Action) (result : Except HttpError String) : Prop where
  attempts : acts.countP Action.isRequest ≤ client.maxRetries
  success : ∀ i < client.maxRetries, (∀ j < i, (outcome j).asksAgain = true) →
    ∀ response, outcome i = .success response →
      result = (client.text response).mapError fun e => .request e.message
  rejected : ∀ i < client.maxRetries, (∀ j < i, (outcome j).asksAgain = true) →
    ∀ status, outcome i = .rejected status → result = .error (.clientError status)
  timedOut : (∀ i < client.maxRetries, (outcome i).asksAgain = true) →
    LastTimedOut outcome client.maxRetries → result = .error .timeout
  exhausted : (∀ i < client.maxRetries, (outcome i).asksAgain = true) →
    ¬ LastTimedOut outcome client.maxRetries → result = .error policy.exhausted

/-- Where every attempt asks for another one, only the error at the end counts. -/
theorem Settled.of_used {client : HttpClient} {policy : RetryPolicy} {outcome : Nat → AttemptOutcome}
    {acts : List Action} {result : Except HttpError String}
    (attempts : acts.countP Action.isRequest ≤ client.maxRetries)
    (used : ∀ i < client.maxRetries, (outcome i).asksAgain = true)
    (timedOut : LastTimedOut outcome client.maxRetries → result = .error .timeout)
    (exhausted : ¬ LastTimedOut outcome client.maxRetries → result = .error policy.exhausted) :
    Settled client policy outcome acts result := by
  have goesOn {i : Nat} {ended : AttemptOutcome} (below : i < client.maxRetries) (here : outcome i = ended) :
      ended.asksAgain = true := here ▸ used i below
  refine ⟨attempts, ?_, ?_, fun _ => timedOut, fun _ => exhausted⟩
  · exact fun i below _ response success => nomatch goesOn below success
  · exact fun i below _ status rejected => nomatch goesOn below rejected

/-- Behind a timeout there were only retryable statuses, up to the attempt before this one. -/
def TimeoutBehind (outcome : Nat → AttemptOutcome) (n : Nat) : Prop :=
  ∃ i < n, outcome i = .timeout ∧ ∀ j < n, i < j → outcome j = .retryable

/-- Every attempt is used up, the last one on a retryable status, and of those that got no answer
the last one timed out. -/
structure StaleTimeout (outcome : Nat → AttemptOutcome) (n : Nat) : Prop where
  used : ∀ i < n, (outcome i).asksAgain = true
  answered : outcome (n - 1) = .retryable
  behind : TimeoutBehind outcome n

theorem timeoutBehind_succ {outcome : Nat → AttemptOutcome} {n : Nat} :
    TimeoutBehind outcome (n + 1) ↔
      outcome n = .timeout ∨ outcome n = .retryable ∧ TimeoutBehind outcome n := by
  constructor
  · rintro ⟨i, below, timedOut, behind⟩
    rcases Nat.lt_succ_iff_lt_or_eq.mp below with earlier | rfl
    · refine .inr ⟨behind n (Nat.lt_succ_self n) earlier, i, earlier, timedOut, ?_⟩
      exact fun j within after => behind j (Nat.lt_succ_of_lt within) after
    · exact .inl timedOut
  · rintro (timedOut | ⟨answered, i, earlier, timedOut, behind⟩)
    · exact ⟨n, Nat.lt_succ_self n, timedOut, fun j within after => by omega⟩
    · refine ⟨i, Nat.lt_succ_of_lt earlier, timedOut, fun j within after => ?_⟩
      rcases Nat.lt_succ_iff_lt_or_eq.mp within with inside | rfl
      · exact behind j inside after
      · exact answered

namespace HttpClient

variable {client : HttpClient} {answers : Nat → Answer} {ua : String} {policy : RetryPolicy} {sent : Nat}

variable (answers policy sent) in
def outcomes (index : Nat) : AttemptOutcome := policy.outcome (answers (sent + index))

/-! ### One attempt -/

theorem retryOnce_again {index : Nat} {state next : RetryState} {acts : List Action}
    (asked : client.retryOnce answers ua policy index state = (acts, .again next)) :
    (policy.outcome (answers state.sent)).asksAgain = true ∧ next.sent = state.sent + 1 ∧
      acts.countP Action.isRequest = 1 ∧
      (next.lastFailureWasTimeout = true ↔ policy.outcome (answers state.sent) = .timeout ∨
        policy.outcome (answers state.sent) = .retryable ∧ state.lastFailureWasTimeout = true) := by
  unfold retryOnce at asked
  dsimp only at asked
  split at asked
  next response answer =>
    rw [answer]
    unfold RetryPolicy.outcome
    dsimp only
    split at asked
    next => cases asked
    next failed =>
      split at asked
      next retryable =>
        cases asked
        simp [failed, retryable, AttemptOutcome.asksAgain, Action.isRequest]
      next => cases asked
  next e answer =>
    cases asked
    rw [answer]
    unfold RetryPolicy.outcome
    dsimp only
    by_cases timedOut : e.isTimeout = true <;> simp [timedOut, AttemptOutcome.asksAgain, Action.isRequest]

theorem retryOnce_done {index : Nat} {state : RetryState} {acts : List Action}
    {result : Except HttpError String}
    (ended : client.retryOnce answers ua policy index state = (acts, .done result)) :
    acts.countP Action.isRequest = 1 ∧
      ((∃ response, policy.outcome (answers state.sent) = .success response ∧
        result = (client.text response).mapError fun e => .request e.message) ∨
      ∃ status, policy.outcome (answers state.sent) = .rejected status ∧
        result = .error (.clientError status)) := by
  unfold retryOnce at ended
  dsimp only at ended
  split at ended
  next response answer =>
    rw [answer]
    unfold RetryPolicy.outcome
    dsimp only
    split at ended
    next success =>
      cases ended
      exact ⟨rfl, .inl ⟨response, by rw [if_pos success], rfl⟩⟩
    next failed =>
      split at ended
      next => cases ended
      next other =>
        cases ended
        exact ⟨rfl, .inr ⟨response.status, by rw [if_neg failed, if_neg other], rfl⟩⟩
  next => cases ended

/-! ### The loop -/

/-- What holds after so many attempts that all asked for another one. -/
structure Waiting (outcome : Nat → AttemptOutcome) (sent index : Nat) (state : RetryState)
    (trace : List Action) : Prop where
  sent : state.sent = sent + index
  asked : ∀ i < index, (outcome i).asksAgain = true
  flag : state.lastFailureWasTimeout = true ↔ TimeoutBehind outcome index
  requests : trace.countP Action.isRequest = index

theorem waiting_of_before {index : Nat} {state : RetryState} {trace : List Action}
    (before : Retry.Before (client.retryOnce answers ua policy) ⟨sent, false⟩ index state trace) :
    Waiting (outcomes answers policy sent) sent index state trace := by
  refine before.invariant ⟨rfl, nofun, ?_, rfl⟩ ?_
  · simp [TimeoutBehind]
  intro index state trace acts next waiting asked
  obtain ⟨again, more, one, flag⟩ := retryOnce_again asked
  rw [waiting.sent] at again flag more
  refine ⟨more, fun i below => ?_, ?_, ?_⟩
  · rcases Nat.lt_succ_iff_lt_or_eq.mp below with earlier | rfl
    · exact waiting.asked i earlier
    · exact again
  · rw [flag, waiting.flag, timeoutBehind_succ, outcomes]
  · rw [List.countP_append, waiting.requests, one]

/-- The first attempt that asks for no other one is the one the loop ends on. -/
theorem ended_unique {outcome : Nat → AttemptOutcome} {last i : Nat}
    (asked : ∀ j < last, (outcome j).asksAgain = true)
    (ended : (outcome last).asksAgain = false) (asked' : ∀ j < i, (outcome j).asksAgain = true)
    (ended' : (outcome i).asksAgain = false) : i = last := by
  rcases Nat.lt_trichotomy i last with below | same | above
  · exact absurd (asked i below) (Bool.eq_false_iff.mp ended')
  · exact same
  · exact absurd (asked' last above) (Bool.eq_false_iff.mp ended)

theorem timeoutBehind_of_used {outcome : Nat → AttemptOutcome} {n : Nat}
    (used : ∀ i < n, (outcome i).asksAgain = true) :
    TimeoutBehind outcome n ↔ LastTimedOut outcome n ∨ StaleTimeout outcome n := by
  cases n with
  | zero =>
    constructor
    · rintro ⟨i, none, -⟩
      exact absurd none (Nat.not_lt_zero i)
    · rintro (⟨none, -⟩ | stale)
      · exact absurd none (Nat.lt_irrefl 0)
      · exact stale.behind
  | succ n =>
    rw [timeoutBehind_succ]
    constructor
    · rintro (timedOut | ⟨answered, behind⟩)
      · exact .inl ⟨Nat.succ_pos n, timedOut⟩
      · exact .inr ⟨used, answered, timeoutBehind_succ.mpr (.inr ⟨answered, behind⟩)⟩
    · rintro (⟨-, timedOut⟩ | stale)
      · exact .inl timedOut
      · exact timeoutBehind_succ.mp stale.behind

/-- Where an attempt asks for no other one, its outcome decides. -/
theorem settled_of_done {last : Nat} {state : RetryState} {trace acts : List Action}
    {result : Except HttpError String} (within : last < client.maxRetries)
    (waiting : Waiting (outcomes answers policy sent) sent last state trace)
    (ended : client.retryOnce answers ua policy last state = (acts, .done result)) :
    (outcomes answers policy sent last).asksAgain = false ∧
      Settled client policy (outcomes answers policy sent) (trace ++ acts) result := by
  obtain ⟨one, cases⟩ := retryOnce_done ended
  rw [waiting.sent] at cases
  have stops : (outcomes answers policy sent last).asksAgain = false := by
    rcases cases with ⟨response, success, -⟩ | ⟨status, rejected, -⟩
    · rw [outcomes, success]
      rfl
    · rw [outcomes, rejected]
      rfl
  have unused : ¬ ∀ i < client.maxRetries, (outcomes answers policy sent i).asksAgain = true := fun used =>
    absurd (used last within) (Bool.eq_false_iff.mp stops)
  refine ⟨stops, ?_, ?_, ?_, fun used => absurd used unused, fun used => absurd used unused⟩
  · rw [List.countP_append, waiting.requests, one]
    exact within
  · intro i below asked response success
    have here := ended_unique waiting.asked stops asked (by rw [success]; rfl)
    rw [here, outcomes] at success
    rcases cases with ⟨other, same, text⟩ | ⟨status, rejected, -⟩
    · cases success.symm.trans same
      exact text
    · cases success.symm.trans rejected
  · intro i below asked status rejected
    have here := ended_unique waiting.asked stops asked (by rw [rejected]; rfl)
    rw [here, outcomes] at rejected
    rcases cases with ⟨other, success, -⟩ | ⟨other, same, error⟩
    · cases rejected.symm.trans success
    · cases rejected.symm.trans same
      exact error

/-- Where all attempts are used up, the flag decides, which an answer does not take back. -/
theorem settled_of_used_iff {state : RetryState} {trace : List Action}
    (waiting : Waiting (outcomes answers policy sent) sent client.maxRetries state trace) :
    Settled client policy (outcomes answers policy sent) trace
        (.error (if state.lastFailureWasTimeout then .timeout else policy.exhausted)) ↔
      ¬ (StaleTimeout (outcomes answers policy sent) client.maxRetries ∧ policy.exhausted ≠ .timeout) := by
  have flag := waiting.flag.trans (timeoutBehind_of_used waiting.asked)
  have settled {result : Except HttpError String}
      (timedOut : LastTimedOut (outcomes answers policy sent) client.maxRetries → result = .error .timeout)
      (exhausted : ¬ LastTimedOut (outcomes answers policy sent) client.maxRetries →
        result = .error policy.exhausted) :=
    Settled.of_used waiting.requests.le waiting.asked timedOut exhausted
  by_cases timedOut : LastTimedOut (outcomes answers policy sent) client.maxRetries
  · have fresh : ¬ StaleTimeout (outcomes answers policy sent) client.maxRetries := fun stale =>
      absurd (timedOut.2.symm.trans stale.answered) nofun
    rw [if_pos (flag.mpr (.inl timedOut))]
    exact iff_of_true (settled (fun _ => rfl) fun other => absurd timedOut other) fun both => fresh both.1
  · by_cases stale : StaleTimeout (outcomes answers policy sent) client.maxRetries
    · rw [if_pos (flag.mpr (.inr stale))]
      constructor
      · rintro settled ⟨-, other⟩
        exact other (Except.error.inj (settled.exhausted waiting.asked timedOut)).symm
      · intro same
        have exhausted : policy.exhausted = .timeout := by
          by_contra other
          exact same ⟨stale, other⟩
        exact settled (fun other => absurd other timedOut) fun _ => congrArg Except.error exhausted.symm
    · rw [if_neg (mt flag.mp (not_or.mpr ⟨timedOut, stale⟩))]
      exact iff_of_true (settled (fun other => absurd other timedOut) fun _ => rfl) fun both => stale both.1

/-- The loop answers as it is to, unless it runs out on statuses behind a timeout. -/
theorem retryWithBackoff_settled_iff (client : HttpClient) (answers : Nat → Answer) (ua : String)
    (policy : RetryPolicy) (sent : Nat) :
    Settled client policy (outcomes answers policy sent) (client.retryWithBackoff answers ua policy sent).1
        (client.retryWithBackoff answers ua policy sent).2 ↔
      ¬ (StaleTimeout (outcomes answers policy sent) client.maxRetries ∧ policy.exhausted ≠ .timeout) := by
  rcases Retry.loop_cases (client.retryOnce answers ua policy)
      (fun state => .error (if state.lastFailureWasTimeout then .timeout else policy.exhausted))
      client.maxRetries ⟨sent, false⟩ with
    ⟨last, within, state, trace, acts, result, before, ended, run⟩ | ⟨state, trace, before, run⟩
  all_goals rw [retryWithBackoff, run]
  · obtain ⟨stops, settled⟩ := settled_of_done within (waiting_of_before before) ended
    refine iff_of_true settled fun stale => ?_
    exact absurd (stale.1.used last within) (Bool.eq_false_iff.mp stops)
  · exact settled_of_used_iff (waiting_of_before before)

end HttpClient

/-! A retry that times out, and one that is answered with 503. -/

namespace TimeoutThenBusy

def client : HttpClient := { ChallengedRetry.client with maxRetries := 2 }

def answers (n : Nat) : Answer :=
  if n = 1 then .error ⟨true, false, "timed out"⟩ else ChallengedRetry.answer 503 "busy"

def serverErrors : RetryPolicy := ⟨none, isServerError, .serverError 503⟩

/-- The last attempt was answered, and the error is that of a timeout. -/
theorem timeout_returned :
    ¬ ∀ (client : HttpClient) (answers : Nat → Answer) (ua : String) (policy : RetryPolicy) (sent : Nat),
      Settled client policy (HttpClient.outcomes answers policy sent)
        (client.retryWithBackoff answers ua policy sent).1
        (client.retryWithBackoff answers ua policy sent).2 := by
  intro all
  have settled := all client answers "first" serverErrors 1
  have used : ∀ i < client.maxRetries, (HttpClient.outcomes answers serverErrors 1 i).asksAgain = true := by
    decide
  have answered : ¬ LastTimedOut (HttpClient.outcomes answers serverErrors 1) client.maxRetries :=
    fun timedOut => nomatch timedOut.2
  have returned : (client.retryWithBackoff answers "first" serverErrors 1).2 = .error .timeout := by rfl
  cases returned.symm.trans (settled.exhausted used answered)

end TimeoutThenBusy

/-! ### The delay before an attempt -/

/-- A product of 64-bit words. With overflow checks a larger one is a panic. -/
def checkedMul (a b : Nat) : Option Nat := if a * b < 2 ^ 64 then some (a * b) else none

def checkedPow (base exponent : Nat) : Option Nat :=
  if base ^ exponent < 2 ^ 64 then some (base ^ exponent) else none

/-- `compute_backoff_delay` in a build that checks for overflow. -/
def checkedBackoffDelay (attempt : Nat) (retryAfterSecs : Option Nat) (baseMs maxMs : Nat) : Option Nat :=
  let exponential := do
    let power ← checkedPow 2 (attempt - 1)
    let delay ← checkedMul baseMs power
    pure (min delay maxMs)
  match retryAfterSecs with
  | some secs => if 0 < secs then checkedMul secs 1000 else exponential
  | none => exponential

/-- The delay that is meant, without a bound on the numbers. -/
def exactBackoffDelay (attempt : Nat) (retryAfterSecs : Option Nat) (baseMs maxMs : Nat) : Nat :=
  let exponential := min (baseMs * 2 ^ (attempt - 1)) maxMs
  match retryAfterSecs with
  | some secs => if 0 < secs then secs * 1000 else exponential
  | none => exponential

/-- The server asked for a delay of its own. -/
def Honoured (retryAfterSecs : Option Nat) (secs : Nat) : Prop := retryAfterSecs = some secs ∧ 0 < secs

/-- No product leaves the 64 bits. -/
structure DelayFits (attempt : Nat) (retryAfterSecs : Option Nat) (baseMs : Nat) : Prop where
  honoured : ∀ secs, Honoured retryAfterSecs secs → secs ≤ (2 ^ 64 - 1) / 1000
  exponential : (∀ secs, ¬ Honoured retryAfterSecs secs) → attempt ≤ 64 ∧ baseMs * 2 ^ (attempt - 1) < 2 ^ 64

/-- The delay is computed without overflow, is the one that is meant, and grows up to the cap. -/
structure DelayExact (attempt : Nat) (retryAfterSecs : Option Nat) (baseMs maxMs : Nat) : Prop where
  checked : checkedBackoffDelay attempt retryAfterSecs baseMs maxMs =
    some (exactBackoffDelay attempt retryAfterSecs baseMs maxMs)
  exact : computeBackoffDelay attempt retryAfterSecs baseMs maxMs =
    exactBackoffDelay attempt retryAfterSecs baseMs maxMs
  capped : (∀ secs, ¬ Honoured retryAfterSecs secs) →
    computeBackoffDelay attempt retryAfterSecs baseMs maxMs ≤ maxMs
  growing : (∀ secs, ¬ Honoured retryAfterSecs secs) → ∀ earlier ≤ attempt,
    computeBackoffDelay earlier retryAfterSecs baseMs maxMs ≤
      computeBackoffDelay attempt retryAfterSecs baseMs maxMs

section Delay

variable {attempt earlier secs baseMs maxMs : Nat} {retryAfterSecs : Option Nat}

theorem honoured_or (retryAfterSecs : Option Nat) :
    (∃ secs, Honoured retryAfterSecs secs) ∨ retryAfterSecs = none ∨ retryAfterSecs = some 0 := by
  cases retryAfterSecs with
  | none => exact .inr (.inl rfl)
  | some secs =>
    rcases Nat.eq_zero_or_pos secs with rfl | positive
    · exact .inr (.inr rfl)
    · exact .inl ⟨secs, rfl, positive⟩

theorem not_honoured (plain : retryAfterSecs = none ∨ retryAfterSecs = some 0) (secs : Nat) :
    ¬ Honoured retryAfterSecs secs := by
  rintro ⟨rfl, positive⟩
  rcases plain with same | same
  · cases same
  · cases same
    exact Nat.lt_irrefl 0 positive

/-- Without a delay from the server the exponential one is taken, by all three computations. -/
theorem exponential_delays (plain : retryAfterSecs = none ∨ retryAfterSecs = some 0)
    (attempt baseMs maxMs : Nat) :
    checkedBackoffDelay attempt retryAfterSecs baseMs maxMs =
        ((checkedPow 2 (attempt - 1)).bind (checkedMul baseMs)).map (min · maxMs) ∧
      exactBackoffDelay attempt retryAfterSecs baseMs maxMs = min (baseMs * 2 ^ (attempt - 1)) maxMs ∧
      computeBackoffDelay attempt retryAfterSecs baseMs maxMs =
        min (baseMs * (2 ^ (attempt - 1) % 2 ^ 64) % 2 ^ 64) maxMs := by
  have unfolded : checkedBackoffDelay attempt none baseMs maxMs =
      ((checkedPow 2 (attempt - 1)).bind (checkedMul baseMs)).map (min · maxMs) := by
    unfold checkedBackoffDelay
    cases checkedPow 2 (attempt - 1) with
    | none => rfl
    | some power =>
      simp only [Option.bind_eq_bind, Option.bind_some]
      cases checkedMul baseMs power <;> rfl
  rcases plain with rfl | rfl <;> exact ⟨unfolded, rfl, rfl⟩

theorem checkedPow_two (exponent : Nat) :
    checkedPow 2 exponent = if exponent < 64 then some (2 ^ exponent) else none := by
  simp only [checkedPow, Nat.pow_lt_pow_iff_right (by decide : 1 < 2)]

theorem DelayFits.of_le (fits : DelayFits attempt retryAfterSecs baseMs) (before : earlier ≤ attempt) :
    DelayFits earlier retryAfterSecs baseMs where
  honoured := fits.honoured
  exponential plain := by
    obtain ⟨bounded, product⟩ := fits.exponential plain
    refine ⟨before.trans bounded, lt_of_le_of_lt (Nat.mul_le_mul_left baseMs ?_) product⟩
    exact Nat.pow_le_pow_right (by decide) (Nat.sub_le_sub_right before 1)

/-- Where nothing overflows the words do not matter. -/
theorem computeBackoffDelay_exact (fits : DelayFits attempt retryAfterSecs baseMs) (maxMs : Nat) :
    checkedBackoffDelay attempt retryAfterSecs baseMs maxMs =
        some (exactBackoffDelay attempt retryAfterSecs baseMs maxMs) ∧
      computeBackoffDelay attempt retryAfterSecs baseMs maxMs =
        exactBackoffDelay attempt retryAfterSecs baseMs maxMs := by
  rcases honoured_or retryAfterSecs with ⟨secs, rfl, positive⟩ | plain
  · have bounded := fits.honoured secs ⟨rfl, positive⟩
    have small : secs * 1000 < 2 ^ 64 := by omega
    simp only [checkedBackoffDelay, exactBackoffDelay, computeBackoffDelay, checkedMul, if_pos positive,
      if_pos small, Nat.mod_eq_of_lt small, and_self]
  · obtain ⟨bounded, product⟩ := fits.exponential (not_honoured plain)
    obtain ⟨checked, exact, computed⟩ := exponential_delays plain attempt baseMs maxMs
    have power : 2 ^ (attempt - 1) < 2 ^ 64 := Nat.pow_lt_pow_right (by decide) (by omega)
    rw [checked, exact, computed, checkedPow, if_pos power, Option.bind_some, checkedMul, if_pos product,
      Nat.mod_eq_of_lt power, Nat.mod_eq_of_lt product]
    exact ⟨rfl, rfl⟩

theorem delayFits_of_checked {delay : Nat}
    (checked : checkedBackoffDelay attempt retryAfterSecs baseMs maxMs = some delay) :
    DelayFits attempt retryAfterSecs baseMs := by
  constructor
  · rintro secs ⟨rfl, positive⟩
    simp only [checkedBackoffDelay, checkedMul, if_pos positive] at checked
    split at checked
    next small => omega
    next => cases checked
  · intro plain
    rcases honoured_or retryAfterSecs with ⟨secs, honoured⟩ | none_asked
    · exact absurd honoured (plain secs)
    · rw [(exponential_delays none_asked attempt baseMs maxMs).1, checkedPow_two] at checked
      split at checked
      next bounded =>
        rw [Option.bind_some, checkedMul] at checked
        split at checked
        next product => exact ⟨by omega, product⟩
        next => cases checked
      next => cases checked

/-- The delay is the one that is meant exactly where no product leaves the 64 bits. -/
theorem delayExact_iff (attempt : Nat) (retryAfterSecs : Option Nat) (baseMs maxMs : Nat) :
    DelayExact attempt retryAfterSecs baseMs maxMs ↔ DelayFits attempt retryAfterSecs baseMs := by
  constructor
  · exact fun exact => delayFits_of_checked exact.checked
  intro fits
  obtain ⟨checked, exact⟩ := computeBackoffDelay_exact fits maxMs
  have plain (none_honoured : ∀ secs, ¬ Honoured retryAfterSecs secs) :
      retryAfterSecs = none ∨ retryAfterSecs = some 0 :=
    (honoured_or retryAfterSecs).resolve_left fun ⟨secs, honoured⟩ => none_honoured secs honoured
  refine ⟨checked, exact, fun none_honoured => ?_, fun none_honoured earlier before => ?_⟩
  · rw [(exponential_delays (plain none_honoured) attempt baseMs maxMs).2.2]
    exact Nat.min_le_right _ _
  · -- the earlier delay is exact as well, and the power is no greater
    obtain ⟨-, exact'⟩ := computeBackoffDelay_exact (fits.of_le before) maxMs
    rw [exact, exact', (exponential_delays (plain none_honoured) attempt baseMs maxMs).2.1,
      (exponential_delays (plain none_honoured) earlier baseMs maxMs).2.1]
    have power : 2 ^ (earlier - 1) ≤ 2 ^ (attempt - 1) :=
      Nat.pow_le_pow_right (by decide) (Nat.sub_le_sub_right before 1)
    exact min_le_min_right maxMs (Nat.mul_le_mul_left baseMs power)

/-- A server that asks for 18446744073709552 seconds is asked again after 384 milliseconds. -/
theorem retryAfter_wrapped :
    ¬ ∀ (attempt : Nat) (retryAfterSecs : Option Nat) (baseMs maxMs : Nat), attempt < 2 ^ 32 →
      (∀ secs, retryAfterSecs = some secs → secs < 2 ^ 64) → baseMs < 2 ^ 64 → maxMs < 2 ^ 64 →
      DelayExact attempt retryAfterSecs baseMs maxMs := by
  intro all
  have delay := all 1 (some 18446744073709552) 1000 30000 (by decide) (by decide) (by decide) (by decide)
  exact absurd delay.exact (by decide)

end Delay

/-! ### What a loop does -/

namespace HttpClient

variable (client : HttpClient) (answers : Nat → Answer) (ua : String)

/-- One retry: the delay of its attempt, then its request. -/
def retryActs (policy : RetryPolicy) (sent i : Nat) : List Action :=
  [.sleep (computeBackoffDelay (i + 1) policy.retryAfterSecs client.backoffBaseMs client.backoffMaxMs),
    .request ⟨sent + i, ua, true⟩]

theorem retryOnce_acts (policy : RetryPolicy) {attempt sent : Nat} {state : RetryState}
    (counted : state.sent = sent + attempt) :
    (client.retryOnce answers ua policy attempt state).1 = client.retryActs ua policy sent attempt ∧
      ∀ next, (client.retryOnce answers ua policy attempt state).2 = .again next →
        next.sent = sent + (attempt + 1) := by
  unfold retryOnce retryActs
  dsimp only
  rw [counted]
  split
  · split
    · exact ⟨rfl, nofun⟩
    · split
      · refine ⟨rfl, ?_⟩
        rintro next ⟨⟩
        rfl
      · exact ⟨rfl, nofun⟩
  · refine ⟨rfl, ?_⟩
    rintro next ⟨⟩
    rfl

/-- The loop of retries sleeps once before each of its requests, as long as is computed for it,
and does nothing else. -/
theorem retryWithBackoff_acts (policy : RetryPolicy) (sent : Nat) :
    ∃ n ≤ client.maxRetries, (client.retryWithBackoff answers ua policy sent).1 =
      (List.range n).flatMap (client.retryActs ua policy sent) := by
  have waited {index : Nat} {state : RetryState} {trace : List Action}
      (before : Retry.Before (client.retryOnce answers ua policy) ⟨sent, false⟩ index state trace) :
      state.sent = sent + index ∧ trace = (List.range index).flatMap (client.retryActs ua policy sent) := by
    refine before.invariant (motive := fun index state trace => state.sent = sent + index ∧
      trace = (List.range index).flatMap (client.retryActs ua policy sent)) ⟨rfl, rfl⟩ ?_
    intro index state trace acts next ih asked
    obtain ⟨did, counted⟩ := client.retryOnce_acts answers ua policy ih.1
    rw [asked] at did counted
    refine ⟨counted next rfl, ?_⟩
    rw [ih.2, show acts = _ from did, List.range_succ, List.flatMap_append, List.flatMap_singleton]
  rcases Retry.loop_cases (client.retryOnce answers ua policy)
      (fun state => .error (if state.lastFailureWasTimeout then .timeout else policy.exhausted))
      client.maxRetries ⟨sent, false⟩ with
    ⟨last, within, state, trace, acts, result, before, ended, run⟩ | ⟨state, trace, before, run⟩
  all_goals rw [retryWithBackoff, run]
  · obtain ⟨counted, traced⟩ := waited before
    have did := (client.retryOnce_acts answers ua policy counted).1
    rw [ended] at did
    refine ⟨last + 1, within, ?_⟩
    rw [traced, show acts = _ from did, List.range_succ, List.flatMap_append, List.flatMap_singleton]
  · exact ⟨client.maxRetries, Nat.le_refl _, (waited before).2⟩

def firstRequest (uaIndex sent i : Nat) : Action := .request ⟨sent + i, ua, decide (uaIndex < 4)⟩

/-- A request that timed out, and the delay before the next. -/
def timedOutActs (uaIndex sent i : Nat) : List Action :=
  [firstRequest ua uaIndex sent i,
    .sleep (computeBackoffDelay (i + 1) none client.backoffBaseMs client.backoffMaxMs)]

def TimedOut (answer : Answer) : Prop := ∃ e, answer = .error e ∧ e.isTimeout = true

theorem sendOnce_again {uaIndex attempt sent state next : Nat} {acts : List Action}
    (counted : state = sent + attempt)
    (asked : client.sendOnce answers ua uaIndex attempt state = (acts, .again next)) :
    attempt < client.maxRetries ∧ next = sent + (attempt + 1) ∧ TimedOut (answers (sent + attempt)) ∧
      acts = client.timedOutActs ua uaIndex sent attempt := by
  subst counted
  unfold sendOnce at asked
  dsimp only at asked
  split at asked
  next => cases asked
  next e failed =>
    split at asked
    next => cases asked
    next timeout =>
      split at asked
      next => cases asked
      next more =>
        cases asked
        exact ⟨Nat.lt_of_not_le more, rfl, ⟨e, failed, by simpa using timeout⟩, rfl⟩

theorem sendOnce_done {uaIndex attempt sent state : Nat} {acts : List Action}
    {result : Nat × Except HttpError Downloader.Response} (counted : state = sent + attempt)
    (ended : client.sendOnce answers ua uaIndex attempt state = (acts, .done result)) :
    acts = [firstRequest ua uaIndex sent attempt] := by
  subst counted
  unfold sendOnce at ended
  dsimp only at ended
  split at ended
  next =>
    cases ended
    rfl
  next =>
    split at ended
    next =>
      cases ended
      rfl
    next =>
      split at ended
      next =>
        cases ended
        rfl
      next => cases ended

/-- The first request is repeated after a timeout only, and after the delay of its attempt;
nothing follows the last one. -/
theorem sendWithTimeoutRetry_acts (uaIndex sent : Nat) :
    ∃ n ≤ client.maxRetries, (∀ i < n, TimedOut (answers (sent + i))) ∧
      (client.sendWithTimeoutRetry answers ua uaIndex sent).1 =
        (List.range n).flatMap (client.timedOutActs ua uaIndex sent) ++
          [firstRequest ua uaIndex sent n] := by
  have waited {index state : Nat} {trace : List Action}
      (before : Retry.Before (client.sendOnce answers ua uaIndex) sent index state trace) :
      state = sent + index ∧ index ≤ client.maxRetries ∧ (∀ i < index, TimedOut (answers (sent + i))) ∧
        trace = (List.range index).flatMap (client.timedOutActs ua uaIndex sent) := by
    refine before.invariant (motive := fun index state trace => state = sent + index ∧
      index ≤ client.maxRetries ∧ (∀ i < index, TimedOut (answers (sent + i))) ∧
        trace = (List.range index).flatMap (client.timedOutActs ua uaIndex sent))
      ⟨rfl, Nat.zero_le _, nofun, rfl⟩ ?_
    rintro index state trace acts next ⟨counted, -, earlier, traced⟩ asked
    obtain ⟨more, step, timeout, did⟩ := client.sendOnce_again answers ua counted asked
    refine ⟨step, more, fun i before => ?_, ?_⟩
    · rcases Nat.lt_succ_iff_lt_or_eq.mp before with old | rfl
      · exact earlier i old
      · exact timeout
    · rw [traced, did, List.range_succ, List.flatMap_append, List.flatMap_singleton]
  rcases Retry.loop_cases (client.sendOnce answers ua uaIndex) (fun sent => (sent, .error .timeout))
      (client.maxRetries + 1) sent with
    ⟨last, within, state, trace, acts, result, before, ended, run⟩ | ⟨state, trace, before, run⟩
  all_goals
    rw [sendWithTimeoutRetry, run]
    obtain ⟨counted, bounded, timeouts, traced⟩ := waited before
  · refine ⟨last, bounded, timeouts, ?_⟩
    rw [traced, client.sendOnce_done answers ua counted ended]
  · -- the last attempt never asks for another one
    exact absurd bounded (Nat.not_succ_le_self _)

end HttpClient

end Webfang.Http
