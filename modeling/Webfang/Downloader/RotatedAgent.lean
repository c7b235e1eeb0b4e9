import Webfang.Downloader.FetchAttempts
import Webfang.Waf.ChallengeDetection

/-!
# The rotated User-Agent

An answer that is no success is inspected before its status counts, so that a challenge is
reported as one. The answer to the request with the rotated User-Agent is not: its status
replaces the inspected one. Every challenge surfaces, and every status that is reported was
inspected, exactly where no rotated answer is a challenge or is reported.
-/
namespace Webfang.Downloader

open Library

namespace WreqDownloader

variable (d : WreqDownloader) (url : Url) (answers : Nat → Answer)

/-- The inspector blocks the answer, for its headers or, under a status a WAF answers with,
for the first bytes of its body. -/
def WouldBlock (response : Response) : Prop :=
  (d.verdictOn response "").isBlocked = true ∨
    Waf.isT2BlockingStatus (some response.status) = true ∧
      ∃ snippet, d.readBodySnippet response = .ok snippet ∧
        (d.verdictOn response snippet).isBlocked = true

/-- The answer to this request was inspected, and no challenge was seen. -/
def Cleared (trace : List Action) (index : Nat) (response : Response) : Prop :=
  .inspect index "" false ∈ trace ∧
    (Waf.isT2BlockingStatus (some response.status) = true →
      ∃ snippet, d.readBodySnippet response = .ok snippet ∧ .inspect index snippet false ∈ trace)

structure SurfacesChallenges : Prop where
  /-- The answer whose status is reported was cleared. -/
  cleared : ∀ status message, (d.fetchInner url answers).2 = .error (.http status message) →
    ∃ sent response, (d.fetchRequests url answers).getLast? = some sent ∧
      answers sent.index = .ok response ∧ response.status = status ∧
      d.Cleared (d.fetchInner url answers).1 sent.index response
  /-- A challenge is reported, and is the last answer. -/
  surfaces : ∀ sent ∈ d.fetchRequests url answers, ∀ response,
    answers sent.index = .ok response → response.isSuccess = false → d.WouldBlock response →
      (∃ message, (d.fetchInner url answers).2 = .error (.wafChallenge message)) ∧
        (d.fetchRequests url answers).getLast? = some sent

/-- A rotated answer is a challenge, or its status is reported. -/
def SkipsInspection : Prop :=
  d.rotates url answers = true ∧ ∃ response, answers 1 = .ok response ∧
    response.isSuccess = false ∧
    (d.WouldBlock response ∨ isRetriedStatus response.status = false ∨ d.maxRetries = 0)

variable {d url answers} {answer : Answer} {response : Response} {attempt last : Nat}
  {sent : Request} {e : DownloadError}

/-! ### Errors that are no answer -/

theorem readBodyBounded_error {limit : Nat} {onOverflow : BoundedRead}
    (failed : d.readBodyBounded response limit onOverflow = .error e) : ¬ e.OfAnswer := by
  rw [readBodyBounded] at failed
  cases collected : collectBody limit onOverflow [] response.body with
  | ok bytes =>
    rw [collected] at failed
    cases failed
  | error cause =>
    rw [collected] at failed
    cases failed
    exact collectBody_error collected

theorem buildPage_error (failed : d.buildPage url response = .error e) : ¬ e.OfAnswer := by
  rw [buildPage] at failed
  cases address : response.url with
  | error message =>
    rw [address] at failed
    cases failed
    simp [DownloadError.OfAnswer]
  | ok finalUrl =>
    rw [address] at failed
    cases read : d.readBodyCapped response with
    | ok html =>
      simp only [read] at failed
      cases failed
    | error cause =>
      simp only [read] at failed
      cases failed
      exact readBodyBounded_error read

theorem sendRequest_error (failed : d.sendRequest answer = .error e) : ¬ e.OfAnswer := by
  cases answer with
  | ok response => cases failed
  | error cause =>
    cases failed
    split_ifs
    · simp [DownloadError.OfAnswer]
    · exact DownloadError.not_ofAnswer_ofWreq cause

/-! ### The inspection of one answer -/

/-- With enforcement on, an answer is a challenge, cannot be read, or is cleared. -/
theorem inspectAnswer_cases (enforced : d.ignoreWaf = false) (response : Response) :
    (d.WouldBlock response ∧
      ∃ message, (d.inspectAnswer response).2 = .error (.wafChallenge message)) ∨
    (¬ d.WouldBlock response ∧
      ∃ e : DownloadError, ¬ e.OfAnswer ∧ (d.inspectAnswer response).2 = .error e) ∨
    ¬ d.WouldBlock response ∧ (d.inspectAnswer response).2 = .ok () ∧
      ("", false) ∈ (d.inspectAnswer response).1 ∧
      (Waf.isT2BlockingStatus (some response.status) = true →
        ∃ snippet, d.readBodySnippet response = .ok snippet ∧
          (snippet, false) ∈ (d.inspectAnswer response).1) := by
  cases marked : (d.verdictOn response "").isBlocked with
  | true =>
    refine .inl ⟨.inl marked, ?_⟩
    simp [inspectAnswer, enforced, marked]
  | false =>
    cases correlated : Waf.isT2BlockingStatus (some response.status) with
    | false =>
      -- the body of such an answer is not read
      have judged : d.inspectAnswer response = ([("", false)], .ok ()) := by
        simp [inspectAnswer, enforced, marked, correlated]
      rw [judged]
      exact .inr (.inr ⟨by simp [WouldBlock, marked, correlated], rfl, by simp, nofun⟩)
    | true =>
      cases read : d.readBodySnippet response with
      | error e =>
        have judged : d.inspectAnswer response = ([("", false)], .error e) := by
          simp [inspectAnswer, enforced, marked, correlated, read]
        rw [judged]
        exact .inr (.inl ⟨by simp [WouldBlock, marked, read], e, readBodyBounded_error read, rfl⟩)
      | ok snippet =>
        cases found : (d.verdictOn response snippet).isBlocked with
        | true =>
          refine .inl ⟨.inr ⟨correlated, snippet, read, found⟩, ?_⟩
          simp [inspectAnswer, enforced, marked, correlated, read, found]
        | false =>
          have judged : d.inspectAnswer response = ([("", false), (snippet, false)], .ok ()) := by
            simp [inspectAnswer, enforced, marked, correlated, read, found]
          rw [judged]
          exact .inr (.inr ⟨by simp [WouldBlock, marked, read, found], rfl, by simp,
            fun _ => ⟨snippet, rfl, by simp⟩⟩)

/-! ### What a request came to -/

theorem sendRequest_ok : d.sendRequest answer = .ok response ↔ answer = .ok response := by
  cases answer <;> simp [sendRequest]

/-- A status was answered, and by a first request only after the inspection. -/
theorem answer_of_status {rotated : Bool} {status : UInt16}
    (came : d.outcome url rotated answer = .status status) :
    ∃ response, answer = .ok response ∧ response.isSuccess = false ∧ response.status = status ∧
      (rotated = false → (d.inspectAnswer response).2 = .ok ()) := by
  cases got : d.sendRequest answer with
  | error e =>
    rw [outcome_of_error url got] at came
    cases came
  | ok response =>
    have answered := sendRequest_ok.mp got
    cases success : response.isSuccess with
    | true => exact absurd came ((outcome_of_success url got success rotated).other status)
    | false =>
      cases rotated with
      | true =>
        rw [outcome_of_rotated url got success] at came
        exact ⟨response, answered, success, Outcome.status.inj came, nofun⟩
      | false =>
        rcases judged : (d.inspectAnswer response).2 with e | ⟨⟩
        · exact absurd came ((outcome_of_judged url got success judged).other status)
        · rw [outcome_of_cleared url got success judged] at came
          exact ⟨response, answered, success, Outcome.status.inj came, fun _ => judged⟩

/-- A challenge is never read, and never passed over. -/
theorem outcome_of_wouldBlock (url : Url) (enforced : d.ignoreWaf = false)
    (failed : response.isSuccess = false) (blocks : d.WouldBlock response) :
    ∃ message, d.outcome url false (.ok response) = .challenge message := by
  rcases inspectAnswer_cases enforced response with
    ⟨-, message, judged⟩ | ⟨other, -⟩ | ⟨other, -⟩
  · exact ⟨message, by simp [outcome, sendRequest, failed, judged, Outcome.refused]⟩
  · exact absurd blocks other
  · exact absurd blocks other

/-- An HTTP error stands for a status: no other failure is reported as one. -/
theorem status_of_http (enforced : d.ignoreWaf = false) {rotated again : Bool} {status : UInt16}
    {message : String} (reported : (if again then (d.outcome url rotated answer).lastWord
      else (d.outcome url rotated answer).ending) = .error (.http status message)) :
    d.outcome url rotated answer = .status status := by
  -- no error of the transport or of a body is an HTTP error
  have http (other : ¬ (DownloadError.http status message).OfAnswer) : False :=
    other (.inl ⟨_, _, rfl⟩)
  have word {s : UInt16} (came : d.outcome url rotated answer = .status s) :
      d.outcome url rotated answer = .status status := by
    rw [came] at reported ⊢
    cases again <;> cases reported <;> rfl
  have stopped {result : Fetched} (stops : (d.outcome url rotated answer).Stops result) :
      result = .error (.http status message) := by
    rw [← reported]
    cases again with
    | false => exact stops.ending.symm
    | true => exact stops.lastWord.symm
  cases got : d.sendRequest answer with
  | error e =>
    rw [outcome_of_error url got] at reported
    cases again <;> cases reported <;> exact (http (sendRequest_error got)).elim
  | ok response =>
    cases success : response.isSuccess with
    | true =>
      exact (http (buildPage_error (stopped (outcome_of_success url got success rotated)))).elim
    | false =>
      cases rotated with
      | true => exact word (outcome_of_rotated url got success)
      | false =>
        rcases inspectAnswer_cases enforced response with
          ⟨-, _, judged⟩ | ⟨-, e, other, judged⟩ | ⟨-, judged, -⟩
        · cases stopped (outcome_of_judged url got success judged)
        · cases stopped (outcome_of_judged url got success judged)
          exact (http other).elim
        · exact word (outcome_of_cleared url got success judged)

/-! ### Which answers are inspected -/

variable {index first : Nat} {text : String} {blocked : Bool}

theorem inspect_sleep {delayMs : Nat} :
    .inspect index text blocked ∉ d.sleepBeforeRetry attempt delayMs := by
  rw [sleepBeforeRetry]
  split_ifs <;> simp

theorem inspect_retryOrFail {status : UInt16} {retryAfter : Option Nat} :
    .inspect index text blocked ∉ (d.retryOrFail attempt first status retryAfter).1 := by
  by_cases retried : isRetriedStatus status = true
  · simp [retryOrFail, retried, inspect_sleep]
  · simp [retryOrFail, retried]

theorem inspect_rotatedRequest :
    .inspect index text blocked ∉ (d.rotatedRequest url answers attempt first).1 := by
  rw [rotatedRequest]
  cases d.sendRequest (answers first) with
  | error e => simp
  | ok response =>
    cases success : response.isSuccess with
    | true => simp [success]
    | false => simp [success, inspect_retryOrFail]

theorem mem_inspections {inspected : List (String × Bool)} :
    Action.inspect index text blocked ∈
        inspected.map (fun (text, blocked) => Action.inspect first text blocked) ↔
      index = first ∧ (text, blocked) ∈ inspected := by
  rw [List.mem_map]
  constructor
  · rintro ⟨seen, listed, same⟩
    cases same
    exact ⟨rfl, listed⟩
  · rintro ⟨rfl, listed⟩
    exact ⟨_, listed, rfl⟩

/-- The inspections of an attempt are those of the answer to its first request. -/
theorem inspect_mem_attemptActions
    (answered : answers (d.firstIndex url answers attempt) = .ok response)
    (failed : response.isSuccess = false) :
    .inspect index text blocked ∈ d.attemptActions url answers attempt ↔
      index = d.firstIndex url answers attempt ∧
        (text, blocked) ∈ (d.inspectAnswer response).1 := by
  have got : d.sendRequest (answers (d.firstIndex url answers attempt)) = .ok response :=
    sendRequest_ok.mpr answered
  rw [← mem_inspections]
  rcases judged : d.inspectAnswer response with ⟨inspected, e | ⟨⟩⟩
  · simp [attemptActions, attemptOnce, got, failed, judged]
  · simp only [attemptActions, attemptOnce, got, failed, judged, Bool.false_eq_true, if_false,
      List.mem_cons, List.mem_append, reduceCtorEq, false_or]
    -- neither a rotated request nor a retry inspects anything
    split_ifs <;> simp [inspect_rotatedRequest, inspect_retryOrFail]

/-! ### What surfaces -/

theorem settled_zero (rotates : d.rotates url answers = true) :
    d.settled url answers 0 = d.outcome url true (answers 1) ∧
      d.lastRequest url answers 0 = ⟨1, fallbackAgents[1]?⟩ := by
  simp [settled, lastRequest, rotatesAt, rotates]

theorem cleared_of_ends (enforced : d.ignoreWaf = false) (kept : ¬ d.SkipsInspection url answers)
    (ends : d.EndsAt url answers last) {status : UInt16} {message : String}
    (reported : (d.fetchInner url answers).2 = .error (.http status message)) :
    ∃ sent response, (d.fetchRequests url answers).getLast? = some sent ∧
      answers sent.index = .ok response ∧ response.status = status ∧
      d.Cleared (d.fetchInner url answers).1 sent.index response := by
  rw [ends.result] at reported
  cases rotated : d.rotatesAt url answers last with
  | true =>
    obtain ⟨rfl, rotates⟩ : last = 0 ∧ d.rotates url answers = true := by
      simpa [rotatesAt] using rotated
    -- its status would be the rotated answer's
    rw [(settled_zero rotates).1] at reported
    obtain ⟨response, answered, failed, rfl, -⟩ :=
      answer_of_status (status_of_http enforced reported)
    have retried : d.asksAgain url answers 0 = isRetriedStatus response.status := by
      rw [asksAgain, (settled_zero rotates).1, status_of_http enforced reported]
      rfl
    refine absurd ⟨rotates, response, answered, failed, .inr ?_⟩ kept
    cases again : isRetriedStatus response.status with
    | false => exact .inl rfl
    | true => exact .inr (ends.used (retried.trans again)).symm
  | false =>
    -- the status comes from a first request, behind its inspection
    have settled : d.settled url answers last =
        d.outcome url false (answers (d.firstIndex url answers last)) := by simp [settled, rotated]
    have sent : d.lastRequest url answers last = ⟨d.firstIndex url answers last, none⟩ := by
      simp [lastRequest, rotated]
    rw [settled] at reported
    obtain ⟨response, answered, failed, same, judged⟩ :=
      answer_of_status (status_of_http enforced reported)
    have traced {text : String} {blocked : Bool}
        (inspected : (text, blocked) ∈ (d.inspectAnswer response).1) :
        .inspect (d.firstIndex url answers last) text blocked ∈ (d.fetchInner url answers).1 := by
      rw [ends.trace, List.mem_flatMap]
      exact ⟨last, by simp, (inspect_mem_attemptActions answered failed).mpr ⟨rfl, inspected⟩⟩
    refine ⟨_, response, ends.getLast, by rw [sent]; exact answered, same, ?_⟩
    rw [sent]
    rcases inspectAnswer_cases enforced response with
      ⟨-, _, refused⟩ | ⟨-, _, -, refused⟩ | ⟨-, -, headers, body⟩
    · cases refused.symm.trans (judged rfl)
    · cases refused.symm.trans (judged rfl)
    · refine ⟨traced headers, fun correlated => ?_⟩
      obtain ⟨snippet, read, inspected⟩ := body correlated
      exact ⟨snippet, read, traced inspected⟩

/-- A challenge to a first request ends the fetch there. -/
theorem surfaces_of_ends (enforced : d.ignoreWaf = false) (kept : ¬ d.SkipsInspection url answers)
    (ends : d.EndsAt url answers last) (member : sent ∈ d.fetchRequests url answers)
    (answered : answers sent.index = .ok response) (failed : response.isSuccess = false)
    (blocks : d.WouldBlock response) :
    (∃ message, (d.fetchInner url answers).2 = .error (.wafChallenge message)) ∧
      (d.fetchRequests url answers).getLast? = some sent := by
  obtain ⟨message, challenge⟩ := outcome_of_wouldBlock url enforced failed blocks
  rw [← answered] at challenge
  obtain ⟨attempt, within, rfl | ⟨rotated, rfl⟩⟩ := ends.request_cases member
  · cases rotated : d.rotatesAt url answers attempt with
    | true =>
      -- the rotated answer would be a challenge nobody saw
      obtain ⟨rfl, rotates⟩ : attempt = 0 ∧ d.rotates url answers = true := by
        simpa [rotatesAt] using rotated
      rw [(settled_zero rotates).2] at answered
      exact absurd ⟨rotates, response, answered, failed, .inl blocks⟩ kept
    | false =>
      have settled : d.settled url answers attempt = .challenge message := by
        rw [← challenge]
        simp [settled, lastRequest, rotated]
      have final : d.asksAgain url answers attempt = false := by
        rw [asksAgain, settled]
        rfl
      -- an attempt that asks for no other is the last one
      obtain before | rfl := Nat.lt_or_eq_of_le within
      · cases final.symm.trans (ends.retried attempt before)
      · refine ⟨⟨message, ?_⟩, ends.getLast⟩
        rw [ends.result, final, settled]
        rfl
  · -- the answer before a rotated request was cleared
    obtain ⟨cleared, rfl, -⟩ := rotatesAt_iff.mp rotated
    rw [firstIndex_zero] at cleared
    cases cleared.symm.trans challenge

theorem rotated_not_inspected (rotates : d.rotates url answers = true) :
    .inspect 1 text blocked ∉ d.attemptActions url answers 0 := by
  obtain ⟨-, cleared⟩ := rotates_iff.mp rotates
  obtain ⟨response, answered, failed, -⟩ := answer_of_status cleared
  rw [inspect_mem_attemptActions (by rwa [firstIndex_zero]) failed, firstIndex_zero]
  exact fun inspected => absurd inspected.1 one_ne_zero

theorem not_surfaces_of_skips (skips : d.SkipsInspection url answers) :
    ¬ d.SurfacesChallenges url answers := by
  obtain ⟨rotates, response, answered, failed, how⟩ := skips
  obtain ⟨last, ends⟩ := d.fetch_endsAt url answers
  obtain ⟨settled, sent⟩ := settled_zero rotates
  have came : d.settled url answers 0 = .status response.status := by
    rw [settled, outcome_of_rotated url (sendRequest_ok.mpr answered) failed]
  intro kept
  -- the first attempt is the last one, or is followed by another
  rcases Nat.eq_zero_or_pos last with rfl | later
  · -- the status of the rotated answer is reported
    have reported : ∃ message,
        (d.fetchInner url answers).2 = .error (.http response.status message) := by
      rw [ends.result, came]
      split_ifs <;> exact ⟨_, rfl⟩
    obtain ⟨message, reported⟩ := reported
    obtain ⟨seen, _, latest, -, -, inspected, -⟩ := kept.cleared _ _ reported
    rw [ends.getLast, sent] at latest
    cases latest
    rw [ends.trace] at inspected
    exact rotated_not_inspected rotates (by simpa using inspected)
  · -- the fetch goes on, though the rotated answer is a challenge
    have retried : isRetriedStatus response.status = true := by
      have again := ends.retried 0 later
      rwa [asksAgain, came] at again
    have blocks : d.WouldBlock response := by
      rcases how with blocks | terminal | none
      · exact blocks
      · cases terminal.symm.trans retried
      · have within := ends.within
        omega
    have latest := (kept.surfaces _ (ends.mem_lastRequest later.le) response
      (by rw [sent]; exact answered) failed blocks).2
    rw [ends.getLast, Option.some.injEq, sent, lastRequest] at latest
    have single : d.rotatesAt url answers last = false := by simp [rotatesAt, later.ne']
    simp [single, fallbackAgents] at latest

/-- Every challenge surfaces, and every reported status was cleared, exactly where no rotated
answer is a challenge or is reported. -/
theorem surfacesChallenges_iff (enforced : d.ignoreWaf = false) :
    d.SurfacesChallenges url answers ↔ ¬ d.SkipsInspection url answers := by
  refine ⟨fun kept skips => not_surfaces_of_skips skips kept, fun kept => ?_⟩
  obtain ⟨last, ends⟩ := d.fetch_endsAt url answers
  exact ⟨fun _ _ => cleared_of_ends enforced kept ends,
    fun _ member _ => surfaces_of_ends enforced kept ends member⟩

end WreqDownloader

/-! A plain 403, and a challenge for the second User-Agent. -/

namespace SecondChallenge

def url : Url := ⟨"https://a.test/", some "a.test"⟩

/-- The bodies here are empty. -/
def downloader : WreqDownloader where
  timeoutSecs := 10
  pinnedUa := none
  maxRetries := 3
  backoffBaseMs := 1000
  backoffMaxMs := 10000
  maxPageBytes := 50000000
  ignoreWaf := false
  decode := fun _ _ => ""
  floats := Waf.HcaptchaScript.wholeNumbers

def plain (status : UInt16) : Response := ⟨status, .ok "https://a.test/", [], [], []⟩

def mitigated : Response := { plain 403 with headers := [⟨"cf-mitigated", some "challenge"⟩] }

def answers (first : UInt16) : Nat → Answer
  | 0 => .ok (plain first)
  | _ + 1 => .ok mitigated

open WreqDownloader

theorem mitigated_wouldBlock : downloader.WouldBlock mitigated := .inl (by decide +kernel)

/-- The challenge is reported as the HTTP error it came with. -/
theorem second_challenge_is_http_error :
    downloader.fetchInner url (answers 403) =
      ([.request ⟨0, none⟩, .inspect 0 "" false, .inspect 0 "" false,
        .request ⟨1, fallbackAgents[1]?⟩], .error (.http 403 "HTTP 403")) ∧
    downloader.WouldBlock mitigated ∧ ¬ downloader.SurfacesChallenges url (answers 403) := by
  have judged : downloader.inspectAnswer (plain 403) = ([("", false), ("", false)], .ok ()) := by
    decide +kernel
  have fetched : downloader.fetchInner url (answers 403) =
      ([.request ⟨0, none⟩, .inspect 0 "" false, .inspect 0 "" false,
        .request ⟨1, fallbackAgents[1]?⟩], .error (.http 403 "HTTP 403")) := by
    have first : downloader.sendRequest (answers 403 0) = .ok (plain 403) := rfl
    have second : downloader.sendRequest (answers 403 1) = .ok mitigated := rfl
    have failed : (plain 403).isSuccess = false ∧ mitigated.isSuccess = false := by decide
    simp only [fetchInner, Retry.loop, attemptOnce, first, failed, judged, rotatedRequest, second]
    rfl
  have rotates : downloader.rotates url (answers 403) = true := by decide +kernel
  refine ⟨fetched, mitigated_wouldBlock, not_surfaces_of_skips ?_⟩
  exact ⟨rotates, mitigated, rfl, by decide, .inl mitigated_wouldBlock⟩

/-- To a first request the same challenge surfaces. -/
theorem retried_challenge_surfaces :
    downloader.ignoreWaf = false ∧ downloader.SurfacesChallenges url (answers 429) := by
  refine ⟨rfl, (surfacesChallenges_iff rfl).mpr fun skips => ?_⟩
  have free : downloader.rotates url (answers 429) = false := by decide +kernel
  cases free.symm.trans skips.1

end SecondChallenge

end Webfang.Downloader
