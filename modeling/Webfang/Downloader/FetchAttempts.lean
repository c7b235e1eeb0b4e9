import Webfang.Downloader.WreqDownloader

/-!
# The attempts of a fetch

What each request comes to, read off its answer alone, and from that what an attempt and the
whole loop do. The loop ends on the first attempt that asks for no other, and its result is
read off the last request of that attempt.
-/
namespace Webfang.Downloader

open Library

/-- What a request comes to: no answer, a body that could not be read, a page, a challenge,
or a status. -/
inductive Outcome where
  | page (page : FetchedPage)
  | unanswered (e : DownloadError)
  | unread (e : DownloadError)
  | challenge (message : String)
  | status (status : UInt16)

/-- An inspection ends on a challenge, or on a body that cannot be read. -/
def Outcome.refused : DownloadError → Outcome
  | .wafChallenge message => .challenge message
  | e => .unread e

def Action.request? : Action → Option Request
  | .request sent => some sent
  | _ => none

def requests (trace : List Action) : List Request := trace.filterMap Action.request?

@[simp] theorem requests_nil : requests [] = [] := rfl

@[simp] theorem requests_cons_request (sent : Request) (trace : List Action) :
    requests (.request sent :: trace) = sent :: requests trace := rfl

@[simp] theorem requests_append (trace later : List Action) :
    requests (trace ++ later) = requests trace ++ requests later :=
  List.filterMap_append

@[simp] theorem requests_inspect (index : Nat) (inspected : List (String × Bool)) :
    requests (inspected.map fun (text, blocked) => .inspect index text blocked) = [] := by
  induction inspected with
  | nil => rfl
  | cons head rest ih => exact ih

namespace WreqDownloader

variable (d : WreqDownloader)

@[simp] theorem requests_sleepBeforeRetry (attempt delayMs : Nat) :
    requests (d.sleepBeforeRetry attempt delayMs) = [] := by
  rw [sleepBeforeRetry]
  split_ifs <;> rfl

variable (url : Url) (answers : Nat → Answer)

def outcome (rotated : Bool) (answer : Answer) : Outcome :=
  match d.sendRequest answer with
  | .error e => .unanswered e
  | .ok response =>
    if response.isSuccess then
      match d.buildPage url response with
      | .ok page => .page page
      | .error e => .unread e
    else if rotated then .status response.status
    else
      match (d.inspectAnswer response).2 with
      | .ok () => .status response.status
      | .error e => .refused e

end WreqDownloader

namespace Outcome

/-- Another attempt follows. A rotated request that gets no answer has none. -/
def asksAgain (rotated : Bool) : Outcome → Bool
  | .status s => WreqDownloader.isRetriedStatus s
  | .unanswered e => !rotated && e.classify != .permanentFatal
  | _ => false

def ending : Outcome → Fetched
  | .page fetched => .ok fetched
  | .unanswered e | .unread e => .error e
  | .challenge message => .error (.wafChallenge message)
  | .status s => .error (.http s s!"HTTP {s}")

/-- The result of a fetch whose retries are exhausted by this outcome. -/
def lastWord : Outcome → Fetched
  | .status s => .error (.http s s!"retries exhausted at status {s}")
  | o => o.ending

/-- The fetch ends at once, and not for a status. -/
structure Stops (o : Outcome) (result : Fetched) : Prop where
  ending : o.ending = result
  final : ∀ rotated, o.asksAgain rotated = false
  other : ∀ s, o ≠ .status s

theorem Stops.lastWord {o : Outcome} {result : Fetched} (stops : o.Stops result) :
    o.lastWord = result := by
  cases o with
  | status s => exact absurd rfl (stops.other s)
  | _ => exact stops.ending

end Outcome

namespace WreqDownloader

variable (d : WreqDownloader) (url : Url) (answers : Nat → Answer)

/-- A second User-Agent is tried: the first answer is a 403 and no challenge. -/
def rotates : Bool :=
  d.pinnedUa.isNone &&
    match d.outcome url false (answers 0) with
    | .status s => s == 403
    | _ => false

def rotatesAt (attempt : Nat) : Bool := attempt == 0 && d.rotates url answers

/-- The number of the request an attempt begins with. -/
def firstIndex (attempt : Nat) : Nat :=
  if attempt ≠ 0 ∧ d.rotates url answers = true then attempt + 1 else attempt

def attemptRequests (attempt : Nat) : List Request :=
  if d.rotatesAt url answers attempt then [⟨0, none⟩, ⟨1, fallbackAgents[1]?⟩]
  else [⟨d.firstIndex url answers attempt, none⟩]

/-- What the last request of an attempt comes to. -/
def settled (attempt : Nat) : Outcome :=
  if d.rotatesAt url answers attempt then d.outcome url true (answers 1)
  else d.outcome url false (answers (d.firstIndex url answers attempt))

/-- The attempt is followed by another one, if there is a retry left. -/
def asksAgain (attempt : Nat) : Bool :=
  (d.settled url answers attempt).asksAgain (d.rotatesAt url answers attempt)

variable {d url answers} {answer : Answer} {response : Response} {attempt last : Nat}
  {state : FetchState} {sent : Request}

/-! ### One request -/

theorem outcome_of_error {e : DownloadError} (url : Url) (got : d.sendRequest answer = .error e)
    (rotated : Bool) : d.outcome url rotated answer = .unanswered e := by
  simp [outcome, got]

/-- The page goes out, or what kept it from being read. -/
theorem outcome_of_success (url : Url) (got : d.sendRequest answer = .ok response)
    (success : response.isSuccess = true) (rotated : Bool) :
    (d.outcome url rotated answer).Stops (d.buildPage url response) := by
  cases built : d.buildPage url response with
  | error e =>
    have unread : d.outcome url rotated answer = .unread e := by simp [outcome, got, success, built]
    exact unread ▸ ⟨rfl, fun _ => rfl, nofun⟩
  | ok page =>
    have read : d.outcome url rotated answer = .page page := by simp [outcome, got, success, built]
    exact read ▸ ⟨rfl, fun _ => rfl, nofun⟩

theorem outcome_of_rotated (url : Url) (got : d.sendRequest answer = .ok response)
    (failed : response.isSuccess = false) :
    d.outcome url true answer = .status response.status := by
  simp [outcome, got, failed]

theorem outcome_of_cleared (url : Url) (got : d.sendRequest answer = .ok response)
    (failed : response.isSuccess = false) (cleared : (d.inspectAnswer response).2 = .ok ()) :
    d.outcome url false answer = .status response.status := by
  simp [outcome, got, failed, cleared]

/-- A challenge or an unread body goes out as the error it is. -/
theorem outcome_of_judged {e : DownloadError} (url : Url)
    (got : d.sendRequest answer = .ok response) (failed : response.isSuccess = false)
    (judged : (d.inspectAnswer response).2 = .error e) :
    (d.outcome url false answer).Stops (.error e) := by
  have refused : d.outcome url false answer = .refused e := by simp [outcome, got, failed, judged]
  rw [refused]
  cases e <;> exact ⟨rfl, fun _ => rfl, nofun⟩

/-! ### One attempt -/

theorem rotates_iff : d.rotates url answers = true ↔
    d.pinnedUa = none ∧ d.outcome url false (answers 0) = .status 403 := by
  rw [rotates, Bool.and_eq_true, Option.isNone_iff_eq_none]
  cases d.outcome url false (answers 0) <;> simp

@[simp] theorem firstIndex_zero : d.firstIndex url answers 0 = 0 := by simp [firstIndex]

/-- An attempt rotates exactly when it is the first one and its own answer says so. -/
theorem rotatesAt_iff : d.rotatesAt url answers attempt = true ↔
    d.outcome url false (answers (d.firstIndex url answers attempt)) = .status 403 ∧
      attempt = 0 ∧ d.pinnedUa = none := by
  rw [rotatesAt, Bool.and_eq_true, beq_iff_eq, rotates_iff]
  constructor
  · rintro ⟨rfl, free, cleared⟩
    exact ⟨by rwa [firstIndex_zero], rfl, free⟩
  · rintro ⟨cleared, rfl, free⟩
    exact ⟨rfl, free, by rwa [firstIndex_zero] at cleared⟩

def Concludes (o : Outcome) (rotated : Bool) (sent : Nat) (turn : Turn FetchState Fetched) : Prop :=
  if o.asksAgain rotated then
    ∃ next, turn = .again next ∧ next.sent = sent ∧ exhausted next = o.lastWord
  else turn = .done o.ending

theorem Concludes.of_stops {o : Outcome} {result : Fetched} (stops : o.Stops result)
    (rotated : Bool) (sent : Nat) : Concludes o rotated sent (.done result) := by
  rw [Concludes, stops.final rotated, stops.ending]
  rfl

theorem retryOrFail_concludes (rotated : Bool) (attempt sent : Nat) (status : UInt16)
    (retryAfter : Option Nat) :
    requests (d.retryOrFail attempt sent status retryAfter).1 = [] ∧
    Concludes (.status status) rotated sent (d.retryOrFail attempt sent status retryAfter).2 := by
  by_cases retried : isRetriedStatus status = true
  · simp [retryOrFail, retried, Concludes, Outcome.asksAgain, exhausted, Outcome.lastWord]
  · simp [retryOrFail, retried, Concludes, Outcome.asksAgain, Outcome.ending]

theorem rotatedRequest_concludes (url : Url) (answers : Nat → Answer) (attempt sent : Nat) :
    requests (d.rotatedRequest url answers attempt sent).1 = [⟨sent, fallbackAgents[1]?⟩] ∧
    Concludes (d.outcome url true (answers sent)) true (sent + 1)
      (d.rotatedRequest url answers attempt sent).2 := by
  cases got : d.sendRequest (answers sent) with
  | error e =>
    simp [rotatedRequest, got, outcome_of_error url got, Concludes, Outcome.asksAgain,
      Outcome.ending]
  | ok response =>
    by_cases success : response.isSuccess = true
    · simp only [rotatedRequest, got, success, if_true]
      exact ⟨rfl, .of_stops (outcome_of_success url got success true) _ _⟩
    · have failed : response.isSuccess = false := by simpa using success
      obtain ⟨quiet, concluded⟩ := d.retryOrFail_concludes true attempt (sent + 1) response.status
        (d.retryAfterMs response)
      simp [rotatedRequest, got, failed, outcome_of_rotated url got failed, quiet, concluded]

theorem firstIndex_succ : d.firstIndex url answers (attempt + 1) =
    d.firstIndex url answers attempt + if d.rotatesAt url answers attempt then 2 else 1 := by
  cases rotated : d.rotates url answers <;> cases attempt <;> simp [firstIndex, rotatesAt, rotated]

/-- The attempt sends its requests and turns to what the last of them comes to. -/
theorem attemptOnce_concludes (first : state.sent = d.firstIndex url answers attempt) :
    requests (d.attemptOnce url answers attempt state).1 = d.attemptRequests url answers attempt ∧
    Concludes (d.settled url answers attempt) (d.rotatesAt url answers attempt)
      (d.firstIndex url answers (attempt + 1)) (d.attemptOnce url answers attempt state).2 := by
  -- short of a cleared 403 at the first attempt the request is the only one
  have single (other : d.outcome url false (answers state.sent) ≠ .status 403) :
      d.rotatesAt url answers attempt = false := by
    rw [Bool.eq_false_iff, Ne, rotatesAt_iff, ← first]
    exact fun rotated => other rotated.1
  cases got : d.sendRequest (answers state.sent) with
  | error e =>
    have outcome := outcome_of_error url got false
    have rotated := single (by simp [outcome])
    simp only [attemptRequests, settled, rotated, ← first, outcome, firstIndex_succ]
    by_cases permanent : e.classify = .permanentFatal
    · simp [attemptOnce, got, permanent, Concludes, Outcome.asksAgain, Outcome.ending]
    · simp [attemptOnce, got, permanent, Concludes, Outcome.asksAgain, exhausted, Outcome.lastWord,
        Outcome.ending]
  | ok response =>
    by_cases success : response.isSuccess = true
    · have stops := outcome_of_success url got success false
      have rotated := single (stops.other 403)
      simp only [attemptRequests, settled, rotated, ← first, attemptOnce, got, success]
      exact ⟨rfl, .of_stops stops _ _⟩
    · have failed : response.isSuccess = false := by simpa using success
      rcases judged : d.inspectAnswer response with ⟨inspected, error | ⟨⟩⟩
      · -- a challenge, or a body that breaks off
        have stops := outcome_of_judged url got failed (by rw [judged])
        have rotated := single (stops.other 403)
        simp only [attemptRequests, settled, rotated, ← first, attemptOnce, got, failed, judged]
        exact ⟨by simp, .of_stops stops _ _⟩
      · have outcome := outcome_of_cleared url got failed (by rw [judged])
        by_cases turned : response.status = 403 ∧ attempt = 0 ∧ d.pinnedUa = none
        · -- the second request is the next in number, and decides
          have rotated : d.rotatesAt url answers attempt = true := by
            rw [rotatesAt_iff, ← first, outcome, turned.1]
            exact ⟨rfl, turned.2⟩
          have began : state.sent = 0 := by rw [first, turned.2.1, firstIndex_zero]
          obtain ⟨sent, concluded⟩ := rotatedRequest_concludes (d := d) url answers attempt
            (state.sent + 1)
          simp only [attemptOnce, got, failed, judged, if_pos turned, attemptRequests, settled,
            rotated, firstIndex_succ, ← first, if_true, Bool.false_eq_true, if_false]
          rw [began] at sent concluded ⊢
          exact ⟨by simp [sent], concluded⟩
        · have rotated : d.rotatesAt url answers attempt = false := by
            rw [Bool.eq_false_iff, Ne, rotatesAt_iff, ← first, outcome, Outcome.status.injEq]
            exact turned
          obtain ⟨quiet, concluded⟩ := d.retryOrFail_concludes false attempt (state.sent + 1)
            response.status (d.retryAfterMs response)
          simp only [attemptRequests, settled, rotated, firstIndex_succ, ← first, attemptOnce, got,
            failed, judged, outcome, if_neg turned]
          exact ⟨by simp [quiet], concluded⟩

/-! ### The loop -/

variable (d url answers) in
/-- What an attempt does, its number given. -/
def attemptActions (attempt : Nat) : List Action :=
  (d.attemptOnce url answers attempt ⟨d.firstIndex url answers attempt, 0, none⟩).1

/-- The status and the error of the attempt before do not matter for it. -/
theorem attemptOnce_actions (first : state.sent = d.firstIndex url answers attempt) :
    (d.attemptOnce url answers attempt state).1 = d.attemptActions url answers attempt := by
  simp only [attemptActions, attemptOnce, ← first]
  cases d.sendRequest (answers state.sent) with
  | error e =>
    dsimp only
    split_ifs <;> rfl
  | ok response => rfl

theorem requests_attemptActions :
    requests (d.attemptActions url answers attempt) = d.attemptRequests url answers attempt :=
  (attemptOnce_concludes rfl).1

theorem requests_flatMap (attempts : List Nat) :
    requests (attempts.flatMap (d.attemptActions url answers)) =
      attempts.flatMap (d.attemptRequests url answers) := by
  induction attempts with
  | nil => rfl
  | cons attempt rest ih =>
    rw [List.flatMap_cons, requests_append, requests_attemptActions, ih, List.flatMap_cons]

variable (d url answers) in
/-- The fetch ends with this attempt. -/
structure EndsAt (last : Nat) : Prop where
  within : last ≤ d.maxRetries
  retried : ∀ earlier < last, d.asksAgain url answers earlier = true
  used : d.asksAgain url answers last = true → last = d.maxRetries
  trace : (d.fetchInner url answers).1 =
    (List.range (last + 1)).flatMap (d.attemptActions url answers)
  result : (d.fetchInner url answers).2 =
    if d.asksAgain url answers last then (d.settled url answers last).lastWord
    else (d.settled url answers last).ending

variable (d url answers) in
/-- What the attempts so far leave to the next one. -/
structure Left (attempt : Nat) (state : FetchState) (trace : List Action) : Prop where
  first : state.sent = d.firstIndex url answers attempt
  retried : ∀ earlier < attempt, d.asksAgain url answers earlier = true
  trace : trace = (List.range attempt).flatMap (d.attemptActions url answers)
  lastWord : ∀ last, attempt = last + 1 → exhausted state = (d.settled url answers last).lastWord

/-- An attempt that asks for another one leaves what the next needs. -/
theorem Left.again {trace acts : List Action} {next : FetchState}
    (left : d.Left url answers attempt state trace)
    (asked : d.attemptOnce url answers attempt state = (acts, .again next)) :
    d.Left url answers (attempt + 1) next (trace ++ acts) := by
  have did := attemptOnce_actions left.first
  obtain ⟨-, concluded⟩ := attemptOnce_concludes left.first
  rw [asked] at did concluded
  rw [Concludes] at concluded
  split at concluded
  next again =>
    obtain ⟨_, same, sent, exhausted⟩ := concluded
    cases same
    refine ⟨sent, fun earlier before => ?_, ?_, fun last here => ?_⟩
    · obtain lt | rfl := Nat.lt_succ_iff_lt_or_eq.mp before
      · exact left.retried earlier lt
      · exact again
    · rw [left.trace, List.range_succ, List.flatMap_append, List.flatMap_singleton, ← did]
    · cases here
      exact exhausted
  next => cases concluded

theorem fetch_endsAt (d : WreqDownloader) (url : Url) (answers : Nat → Answer) :
    ∃ last, d.EndsAt url answers last := by
  -- the invariant of the loop, at every attempt it comes to
  have left {n : Nat} {state : FetchState} {trace : List Action}
      (before : Retry.Before (d.attemptOnce url answers) ⟨0, 0, none⟩ n state trace) :
      d.Left url answers n state trace :=
    before.invariant ⟨firstIndex_zero.symm, nofun, rfl, nofun⟩
      fun _ _ _ _ _ left asked => left.again asked
  rcases Retry.loop_cases (d.attemptOnce url answers) exhausted (d.maxRetries + 1) ⟨0, 0, none⟩ with
    ⟨last, below, state, trace, acts, result, before, ended, looped⟩ |
    ⟨state, trace, before, looped⟩
  · have left := left before
    have did := attemptOnce_actions left.first
    obtain ⟨-, concluded⟩ := attemptOnce_concludes left.first
    rw [ended] at did concluded
    rw [Concludes] at concluded
    split at concluded
    next =>
      obtain ⟨_, same, -⟩ := concluded
      cases same
    next final =>
      have final : d.asksAgain url answers last = false := Bool.eq_false_iff.mpr final
      refine ⟨last, by omega, left.retried, fun again => ?_, ?_, ?_⟩
      · rw [final] at again
        cases again
      · rw [fetchInner, looped, left.trace, List.range_succ, List.flatMap_append,
          List.flatMap_singleton, ← did]
      · rw [fetchInner, looped, final]
        exact Turn.done.inj concluded
  · have left := left before
    have again := left.retried d.maxRetries (Nat.lt_succ_self _)
    refine ⟨d.maxRetries, le_rfl, fun a below => left.retried a (by omega), fun _ => rfl, ?_, ?_⟩
    · rw [fetchInner, looped, left.trace]
    · rw [fetchInner, looped, again, if_pos rfl]
      exact left.lastWord d.maxRetries rfl

/-! ### The requests of a fetch -/

variable (d url answers) in
def fetchRequests : List Request := requests (d.fetchInner url answers).1

variable (d url answers) in
def comesTo (sent : Request) : Outcome := d.outcome url sent.userAgent.isSome (answers sent.index)

variable (d url answers) in
def lastRequest (attempt : Nat) : Request :=
  if d.rotatesAt url answers attempt then ⟨1, fallbackAgents[1]?⟩
  else ⟨d.firstIndex url answers attempt, none⟩

theorem comesTo_lastRequest :
    d.comesTo url answers (d.lastRequest url answers attempt) = d.settled url answers attempt := by
  rw [comesTo, lastRequest, settled]
  split_ifs <;> rfl

/-- One request, or a second one after a first that came to a 403. -/
theorem attemptRequests_cases (d : WreqDownloader) (url : Url) (answers : Nat → Answer)
    (attempt : Nat) :
    d.rotatesAt url answers attempt = false ∧
      d.attemptRequests url answers attempt = [d.lastRequest url answers attempt] ∨
    d.rotatesAt url answers attempt = true ∧
      d.attemptRequests url answers attempt = [⟨0, none⟩, d.lastRequest url answers attempt] := by
  cases rotated : d.rotatesAt url answers attempt <;>
    simp [attemptRequests, lastRequest, rotated]

theorem EndsAt.requests (ends : d.EndsAt url answers last) :
    d.fetchRequests url answers =
      (List.range (last + 1)).flatMap (d.attemptRequests url answers) := by
  rw [fetchRequests, ends.trace, requests_flatMap]

theorem EndsAt.getLast (ends : d.EndsAt url answers last) :
    (d.fetchRequests url answers).getLast? = some (d.lastRequest url answers last) := by
  rw [ends.requests, List.range_succ, List.flatMap_append, List.flatMap_singleton]
  rcases d.attemptRequests_cases url answers last with ⟨-, here⟩ | ⟨-, here⟩ <;> simp [here]

theorem EndsAt.mem_lastRequest (ends : d.EndsAt url answers last) (within : attempt ≤ last) :
    d.lastRequest url answers attempt ∈ d.fetchRequests url answers := by
  rw [ends.requests, List.mem_flatMap]
  refine ⟨attempt, List.mem_range.mpr (Nat.lt_succ_of_le within), ?_⟩
  rcases d.attemptRequests_cases url answers attempt with ⟨-, here⟩ | ⟨-, here⟩ <;> simp [here]

/-- A request of the fetch is the last one of an attempt, or the 403 before a rotated one. -/
theorem EndsAt.request_cases (ends : d.EndsAt url answers last)
    (member : sent ∈ d.fetchRequests url answers) :
    ∃ attempt ≤ last, sent = d.lastRequest url answers attempt ∨
      d.rotatesAt url answers attempt = true ∧ sent = ⟨0, none⟩ := by
  rw [ends.requests] at member
  obtain ⟨attempt, below, here⟩ := List.mem_flatMap.mp member
  refine ⟨attempt, Nat.lt_succ_iff.mp (List.mem_range.mp below), ?_⟩
  rcases d.attemptRequests_cases url answers attempt with ⟨-, only⟩ | ⟨rotated, both⟩
  · rw [only] at here
    exact .inl (List.mem_singleton.mp here)
  · rw [both] at here
    rcases List.mem_pair.mp here with first | second
    · exact .inr ⟨rotated, first⟩
    · exact .inl second

end WreqDownloader

end Webfang.Downloader
