import Webfang.Http.Client

/-!
# Screened bodies

A body that `get` returns was inspected and is within the cap exactly if its answer is the first
success and nothing before it started the loop of retries, or the inspection is switched off: that
loop returns the text of a success as it is.
-/
namespace Webfang.Http

open Library
open Downloader (Response WreqError)
open Waf (Bytes)

/-! ### What a trace shows -/

def Action.index? : Action → Option Nat
  | .request sent => some sent.index
  | _ => none

def lastRequest (acts : List Action) : Option Nat := (acts.filterMap Action.index?).getLast?

def Action.inspection? : Action → Option (Nat × String × Bool)
  | .inspect index text blocked => some (index, text, blocked)
  | _ => none

def inspections (acts : List Action) : List (Nat × String × Bool) := acts.filterMap Action.inspection?

@[simp] theorem inspections_append (acts more : List Action) :
    inspections (acts ++ more) = inspections acts ++ inspections more := List.filterMap_append

theorem lastRequest_append_of_none {more : List Action} (none : more.filterMap Action.index? = [])
    (acts : List Action) :
    lastRequest (acts ++ more) = lastRequest acts := by
  rw [lastRequest, List.filterMap_append, none, List.append_nil]
  rfl

theorem lastRequest_append {more : List Action} {index : Nat} (last : lastRequest more = some index)
    (acts : List Action) : lastRequest (acts ++ more) = some index := by
  rw [lastRequest] at last ⊢
  rw [List.filterMap_append, List.getLast?_append, last]
  rfl

/-- The body was read from the answer the run ends on, inspected and not blocked, or nothing is
inspected, and it is no longer than the cap. -/
structure Screened (client : HttpClient) (acts : List Action) (body : String) : Prop where
  inspected : client.ignoreWaf = true ∨
    ∃ index, lastRequest acts = some index ∧ (index, body, false) ∈ inspections acts
  capped : (Waf.bytes body).length ≤ client.maxPageBytes

/-! ### What the answers show -/

def startsRetries (status : UInt16) : Bool := status == 429 || isServerError status

structure FirstSuccess (answers : Nat → Answer) (n : Nat) (response : Response) : Prop where
  answer : answers n = .ok response
  success : response.isSuccess = true
  first : ∀ i < n, ∀ earlier, answers i = .ok earlier → earlier.isSuccess = false

def Retried (answers : Nat → Answer) (n : Nat) : Prop :=
  ∃ i < n, ∃ earlier, answers i = .ok earlier ∧ startsRetries earlier.status = true

def wholeBody (response : Response) : Bytes :=
  response.body.flatMap fun chunk =>
    match chunk with
    | .ok bytes => bytes
    | .error _ => []

/-- The answers for which a body that is returned is a screened one. -/
structure Direct (client : HttpClient) (answers : Nat → Answer) (n : Nat) (response : Response) : Prop where
  first : FirstSuccess answers n response
  retried : Retried answers n → client.ignoreWaf = true
  read : ¬ Retried answers n →
    (Waf.bytes (client.decode response.charset (wholeBody response))).length ≤ client.maxPageBytes
  retriedText : Retried answers n → ∀ text, client.text response = .ok text →
    (Waf.bytes text).length ≤ client.maxPageBytes

theorem FirstSuccess.unique {answers : Nat → Answer} {n m : Nat} {response other : Response}
    (first : FirstSuccess answers n response) (first' : FirstSuccess answers m other) :
    n = m ∧ response = other := by
  have same : n = m := by
    rcases Nat.lt_trichotomy n m with below | same | above
    · exact absurd first.success (Bool.eq_false_iff.mp (first'.first n below response first.answer))
    · exact same
    · exact absurd first'.success (Bool.eq_false_iff.mp (first.first m above other first'.answer))
  subst same
  exact ⟨rfl, Except.ok.inj (first.answer.symm.trans first'.answer)⟩

/-- An answer after which the first responses go on: none, or one that neither ends the run with a
body nor starts the retries. -/
def Quiet (answer : Answer) : Prop :=
  ∀ response, answer = .ok response → response.isSuccess = false ∧ startsRetries response.status = false

theorem quiet_error (e : SendError) : Quiet (.error e) := fun _ answer => nomatch answer

/-- What a run that returns a body has done. -/
inductive Delivered (client : HttpClient) (answers : Nat → Answer) (acts : List Action) (body : String) : Prop
  | first (n : Nat) (response : Response) (first : FirstSuccess answers n response)
      (direct : ¬ Retried answers n) (last : lastRequest acts = some n)
      (read : client.readBodyCapped response = .ok body) (inspected : (n, body, false) ∈ inspections acts)
  | retry (n : Nat) (response : Response) (first : FirstSuccess answers n response)
      (retried : Retried answers n) (last : lastRequest acts = some n)
      (read : client.text response = .ok body)
      (earlier : ∀ inspection ∈ inspections acts, inspection.1 < n)

theorem readBody_whole {limit : Nat} {buf bytes : Bytes} {chunks : List (Except WreqError Bytes)}
    (read : readBody limit buf chunks = .ok bytes) :
    bytes = buf ++ chunks.flatMap fun chunk =>
      match chunk with
      | .ok bytes => bytes
      | .error _ => [] := by
  induction chunks generalizing buf with
  | nil =>
    cases read
    simp
  | cons chunk rest ih =>
    cases chunk with
    | error e => cases read
    | ok chunk =>
      rw [readBody] at read
      split at read
      next => cases read
      next => rw [ih read, List.append_assoc, List.flatMap_cons]

namespace HttpClient

variable {client : HttpClient} {answers : Nat → Answer}

theorem readBodyCapped_text {response : Response} {body : String}
    (read : client.readBodyCapped response = .ok body) :
    body = client.decode response.charset (wholeBody response) := by
  rw [readBodyCapped] at read
  cases bytes : readBody client.maxPageBytes [] response.body with
  | error e =>
    rw [bytes] at read
    cases read
  | ok collected =>
    rw [bytes] at read
    cases read
    rw [readBody_whole bytes]
    rfl

/-! ### One lemma for each loop -/

/-- A response was sent for until an answer came. -/
theorem sendWithTimeoutRetry_ok {ua : String} {uaIndex sent next : Nat} {acts : List Action}
    {response : Response}
    (ok : client.sendWithTimeoutRetry answers ua uaIndex sent = (acts, next, .ok response)) :
    ∃ last, next = last + 1 ∧ sent ≤ last ∧ answers last = .ok response ∧
      (∀ i, sent ≤ i → i < last → Quiet (answers i)) ∧ inspections acts = [] ∧
      lastRequest acts = some last := by
  have left {index state : Nat} {trace : List Action}
      (before : Retry.Before (client.sendOnce answers ua uaIndex) sent index state trace) :
      sent ≤ state ∧ (∀ i, sent ≤ i → i < state → Quiet (answers i)) ∧ inspections trace = [] := by
    refine before.invariant (motive := fun _ state trace =>
      sent ≤ state ∧ (∀ i, sent ≤ i → i < state → Quiet (answers i)) ∧ inspections trace = [])
      ⟨Nat.le_refl _, fun i le lt => absurd lt (Nat.not_lt_of_le le), rfl⟩ ?_
    rintro index state trace acts next ⟨le, quiet, silent⟩ asked
    rw [sendOnce] at asked
    cases answer : answers state with
    | ok response =>
      rw [answer] at asked
      cases asked
    | error e =>
      rw [answer] at asked
      dsimp only at asked
      split at asked
      next => cases asked
      next =>
        split at asked
        next => cases asked
        next =>
          cases asked
          refine ⟨Nat.le_succ_of_le le, fun i le' lt => ?_, by rw [inspections_append, silent]; rfl⟩
          rcases Nat.lt_succ_iff_lt_or_eq.mp lt with below | rfl
          · exact quiet i le' below
          · rw [answer]
            exact quiet_error e
  rcases Retry.loop_cases (client.sendOnce answers ua uaIndex) (fun sent => (sent, .error .timeout))
    (client.maxRetries + 1) sent with
    ⟨index, -, state, trace, done, result, before, ended, looped⟩ | ⟨state, trace, -, looped⟩
  · obtain ⟨le, quiet, silent⟩ := left before
    rw [sendWithTimeoutRetry, looped] at ok
    cases ok
    rw [sendOnce] at ended
    cases answer : answers state with
    | ok response' =>
      rw [answer] at ended
      cases ended
      exact ⟨state, rfl, le, answer, quiet, by rw [inspections_append, silent]; rfl,
        lastRequest_append rfl trace⟩
    | error e =>
      rw [answer] at ended
      dsimp only at ended
      split at ended
      next => cases ended
      next =>
        split at ended
        next => cases ended
        next => cases ended
  · rw [sendWithTimeoutRetry, looped] at ok
    cases ok

/-- The loop of retries returns the text of the first success it comes to. -/
theorem retryWithBackoff_ok {ua : String} {policy : RetryPolicy} {sent : Nat} {acts : List Action}
    {body : String} (ok : client.retryWithBackoff answers ua policy sent = (acts, .ok body)) :
    ∃ last response, sent ≤ last ∧ answers last = .ok response ∧ response.isSuccess = true ∧
      client.text response = .ok body ∧
      (∀ i, sent ≤ i → i < last → ∀ earlier, answers i = .ok earlier → earlier.isSuccess = false) ∧
      inspections acts = [] ∧ lastRequest acts = some last := by
  have left {index : Nat} {state : RetryState} {trace : List Action}
      (before : Retry.Before (client.retryOnce answers ua policy) ⟨sent, false⟩ index state trace) :
      sent ≤ state.sent ∧
        (∀ i, sent ≤ i → i < state.sent → ∀ earlier, answers i = .ok earlier → earlier.isSuccess = false) ∧
        inspections trace = [] := by
    refine before.invariant (motive := fun _ state trace => sent ≤ state.sent ∧
      (∀ i, sent ≤ i → i < state.sent → ∀ earlier, answers i = .ok earlier → earlier.isSuccess = false) ∧
        inspections trace = [])
      ⟨Nat.le_refl _, fun i le lt => absurd lt (Nat.not_lt_of_le le), rfl⟩ ?_
    rintro index state trace acts next ⟨le, fails, silent⟩ asked
    -- the answer of this attempt is no success either
    have kept : next.sent = state.sent + 1 ∧ inspections acts = [] ∧
        ∀ earlier, answers state.sent = .ok earlier → earlier.isSuccess = false := by
      rw [retryOnce] at asked
      cases answer : answers state.sent with
      | ok response =>
        rw [answer] at asked
        dsimp only at asked
        split at asked
        next => cases asked
        next failed =>
          split at asked
          next =>
            cases asked
            refine ⟨rfl, rfl, ?_⟩
            rintro earlier ⟨⟩
            exact Bool.eq_false_iff.mpr failed
          next => cases asked
      | error e =>
        rw [answer] at asked
        cases asked
        exact ⟨rfl, rfl, nofun⟩
    obtain ⟨count, silent', failed⟩ := kept
    rw [count, inspections_append, silent, silent']
    refine ⟨Nat.le_succ_of_le le, fun i le' lt => ?_, rfl⟩
    rcases Nat.lt_succ_iff_lt_or_eq.mp lt with below | rfl
    · exact fails i le' below
    · exact failed
  rw [retryWithBackoff] at ok
  rcases Retry.loop_cases (client.retryOnce answers ua policy)
    (fun state => .error (if state.lastFailureWasTimeout then .timeout else policy.exhausted))
    client.maxRetries ⟨sent, false⟩ with
    ⟨index, -, state, trace, done, result, before, ended, looped⟩ | ⟨state, trace, -, looped⟩
  · obtain ⟨le, fails, silent⟩ := left before
    rw [looped] at ok
    cases ok
    rw [retryOnce] at ended
    cases answer : answers state.sent with
    | ok response =>
      rw [answer] at ended
      dsimp only at ended
      split at ended
      next success =>
        cases text : client.text response with
        | error e =>
          rw [text] at ended
          cases ended
        | ok read =>
          rw [text] at ended
          cases ended
          exact ⟨state.sent, response, le, answer, success, text, fails,
            by rw [inspections_append, silent]; rfl, lastRequest_append rfl trace⟩
      next =>
        split at ended
        next => cases ended
        next => cases ended
    | error e =>
      rw [answer] at ended
      cases ended
  · rw [looped] at ok
    cases ok

/-! ### One User-Agent -/

theorem handleSuccess_ok {index : Nat} {response : Response} {acts : List Action} {body : String}
    (ok : client.handleSuccess index response = (acts, .ok body)) :
    client.readBodyCapped response = .ok body ∧ acts = [.inspect index body false] := by
  rw [handleSuccess] at ok
  cases read : client.readBodyCapped response with
  | error e =>
    rw [read] at ok
    cases ok
  | ok text =>
    rw [read] at ok
    simp only [wafBlockError] at ok
    cases verdict : (client.verdictOn response text).isBlocked with
    | true =>
      rw [verdict] at ok
      cases ok
    | false =>
      rw [verdict] at ok
      cases ok
      exact ⟨rfl, rfl⟩

theorem handleServerError_ok {index : Nat} {response : Response} {ua : String} {acts : List Action}
    {body : String} (ok : client.handleServerError answers index response ua = (acts, .ok body)) :
    ∃ inspection more policy, acts = inspection :: more ∧
      (∀ found ∈ inspections [inspection], found.1 = index) ∧
      client.retryWithBackoff answers ua policy (index + 1) = (more, .ok body) := by
  rw [handleServerError] at ok
  simp only [wafBlockError] at ok
  cases verdict : (client.verdictOn response (client.errorPageText response)).isBlocked with
  | true =>
    rw [verdict] at ok
    cases ok
  | false =>
    rw [verdict] at ok
    rcases retries : client.retryWithBackoff answers ua
      ⟨none, isServerError, .serverError response.status⟩ (index + 1) with ⟨more, result⟩
    simp only [retries, Bool.false_eq_true, if_false] at ok
    cases ok
    refine ⟨_, more, _, rfl, fun found member => ?_, retries⟩
    rw [List.mem_singleton.mp member]

theorem delivered_of_retries {ua : String} {policy : RetryPolicy} {start : Nat} {response : Response}
    {before more : List Action} {body : String} (quiet : ∀ i < start, Quiet (answers i))
    (answer : answers start = .ok response) (failed : response.isSuccess = false)
    (starts : startsRetries response.status = true)
    (earlier : ∀ inspection ∈ inspections before, inspection.1 ≤ start)
    (ok : client.retryWithBackoff answers ua policy (start + 1) = (more, .ok body)) :
    Delivered client answers (before ++ more) body := by
  obtain ⟨last, success, le, answer', succeeded, text, fails, silent, sent⟩ := retryWithBackoff_ok ok
  refine .retry last success ⟨answer', succeeded, fun i below => ?_⟩ ⟨start, le, response, answer, starts⟩
    (lastRequest_append sent before) text fun inspection member => ?_
  · -- quiet answers, the one that starts the retries, and failures behind it
    intro other answer''
    rcases Nat.lt_trichotomy i start with under | rfl | above
    · exact (quiet i under other answer'').1
    · rw [answer] at answer''
      cases answer''
      exact failed
    · exact fails i above below other answer''
  · rw [inspections_append, silent, List.append_nil] at member
    exact Nat.lt_of_le_of_lt (earlier inspection member) le

theorem round_again {uaIndex sent next : Nat} {acts : List Action} (quiet : ∀ i < sent, Quiet (answers i))
    (asked : client.round answers uaIndex sent = (acts, .again next)) :
    (∀ i < next, Quiet (answers i)) ∧ inspections acts = [] := by
  rw [round] at asked
  split at asked
  next => cases asked
  next =>
    dsimp only at asked
    rcases sending : client.sendWithTimeoutRetry answers (client.selectUserAgent uaIndex) uaIndex sent with
      ⟨sendActs, count, answer⟩
    rw [sending] at asked
    cases answer with
    | error e => cases asked
    | ok response =>
      obtain ⟨last, rfl, le, answered, between, silent, -⟩ := sendWithTimeoutRetry_ok sending
      dsimp only at asked
      split at asked
      next => cases asked
      next failed =>
        split at asked
        next forbidden =>
          split at asked
          next =>
            cases asked
            refine ⟨fun i lt => ?_, silent⟩
            rcases Nat.lt_succ_iff_lt_or_eq.mp lt with below | rfl
            · by_cases early : i < sent
              · exact quiet i early
              · exact between i (Nat.le_of_not_lt early) below
            · -- a 403 is no success and starts no retries
              rintro other same
              rw [answered] at same
              cases same
              refine ⟨Bool.eq_false_iff.mpr failed, ?_⟩
              rw [forbidden]
              decide
          next => cases asked
        next =>
          split at asked
          next => cases asked
          next =>
            split at asked
            next => cases asked
            next => split at asked <;> cases asked

theorem round_done {uaIndex sent : Nat} {acts before : List Action} {body : String}
    (quiet : ∀ i < sent, Quiet (answers i)) (silent : inspections before = [])
    (done : client.round answers uaIndex sent = (acts, .done (.ok body))) :
    Delivered client answers (before ++ acts) body := by
  rw [round] at done
  split at done
  next => cases done
  next =>
    dsimp only at done
    rcases sending : client.sendWithTimeoutRetry answers (client.selectUserAgent uaIndex) uaIndex sent with
      ⟨sendActs, count, answer⟩
    rw [sending] at done
    cases answer with
    | error e => cases done
    | ok response =>
      obtain ⟨last, rfl, le, answered, between, silent', lastSent⟩ := sendWithTimeoutRetry_ok sending
      have quiet' : ∀ i < last, Quiet (answers i) := by
        intro i below
        by_cases early : i < sent
        · exact quiet i early
        · exact between i (Nat.le_of_not_lt early) below
      have before_silent : inspections (before ++ sendActs) = [] := by
        rw [inspections_append, silent, silent']
        rfl
      simp only [Nat.add_sub_cancel] at done
      split at done
      next success =>
        rcases handled : client.handleSuccess last response with ⟨more, result⟩
        rw [handled] at done
        cases done
        obtain ⟨read, rfl⟩ := handleSuccess_ok handled
        have fails := fun i below earlier same => (quiet' i below earlier same).1
        refine .first last response ⟨answered, success, fails⟩ ?_ ?_ read ?_
        · rintro ⟨i, below, earlier, same, starts⟩
          rw [(quiet' i below earlier same).2] at starts
          cases starts
        · rw [← List.append_assoc, lastRequest_append_of_none rfl]
          exact lastRequest_append lastSent before
        · rw [inspections_append, inspections_append]
          exact List.mem_append_right _ (List.mem_append_right _ (List.mem_singleton.mpr rfl))
      next failed =>
        split at done
        next =>
          split at done
          next => cases done
          next => cases done
        next =>
          split at done
          next limited =>
            have starts : startsRetries response.status = true := by
              rw [limited]
              decide
            rcases handled : client.handleRateLimited answers last response
              (client.selectUserAgent uaIndex) with ⟨more, result⟩
            rw [handled] at done
            cases done
            rw [← List.append_assoc]
            refine delivered_of_retries quiet' answered (Bool.eq_false_iff.mpr failed) starts ?_ handled
            rw [before_silent]
            exact fun _ member => absurd member List.not_mem_nil
          next =>
            split at done
            next erring =>
              have starts : startsRetries response.status = true := by
                rw [startsRetries, erring, Bool.or_true]
              rcases handled : client.handleServerError answers last response
                (client.selectUserAgent uaIndex) with ⟨more, result⟩
              rw [handled] at done
              cases done
              obtain ⟨inspection, retries, policy, rfl, named, looped⟩ := handleServerError_ok handled
              -- the error page was inspected, before any retry
              have earlier : ∀ found ∈ inspections (before ++ sendActs ++ [inspection]), found.1 ≤ last := by
                rw [inspections_append, before_silent]
                intro found member
                exact Nat.le_of_eq (named found member)
              have delivered :=
                delivered_of_retries quiet' answered (Bool.eq_false_iff.mpr failed) starts earlier looped
              simpa only [List.append_assoc, List.singleton_append] using delivered
            next => split at done <;> cases done

/-! ### The whole request -/

theorem getInner_delivers {acts : List Action} {body : String}
    (ok : client.getInner answers = (acts, .ok body)) :
    Delivered client answers acts body := by
  have left {index state : Nat} {trace : List Action}
      (before : Retry.Before (client.round answers) 0 index state trace) :
      (∀ i < state, Quiet (answers i)) ∧ inspections trace = [] := by
    refine before.invariant (motive := fun _ state trace =>
      (∀ i < state, Quiet (answers i)) ∧ inspections trace = []) ⟨nofun, rfl⟩ ?_
    rintro index state trace acts next ⟨quiet, silent⟩ asked
    obtain ⟨quiet', silent'⟩ := round_again quiet asked
    exact ⟨quiet', by rw [inspections_append, silent, silent']; rfl⟩
  rw [getInner] at ok
  rcases Retry.loop_cases (client.round answers) (fun _ => .error .forbidden) 2 0 with
    ⟨index, -, state, trace, done, result, before, ended, looped⟩ | ⟨state, trace, -, looped⟩
  · rw [looped] at ok
    cases ok
    obtain ⟨quiet, silent⟩ := left before
    exact round_done quiet silent ended
  · rw [looped] at ok
    cases ok

theorem delivered_report {acts more : List Action} {body : String}
    (delivered : Delivered client answers acts body)
    (unsent : more.filterMap Action.index? = []) (silent : inspections more = []) :
    Delivered client answers (acts ++ more) body := by
  have last := lastRequest_append_of_none unsent acts
  have kept : inspections (acts ++ more) = inspections acts := by
    rw [inspections_append, silent, List.append_nil]
  cases delivered with
  | first n response first direct sent read inspected =>
    exact .first n response first direct (last.trans sent) read (kept ▸ inspected)
  | retry n response first retried sent read earlier =>
    exact .retry n response first retried (last.trans sent) read (kept ▸ earlier)

theorem get_delivers {url : String} {acts : List Action} {body : String}
    (ok : client.get answers url = (acts, .ok body)) : Delivered client answers acts body := by
  rw [get] at ok
  split at ok
  next => cases ok
  next =>
    split at ok
    next => cases ok
    next =>
      split at ok
      next => exact getInner_delivers ok
      next =>
        dsimp only at ok
        split at ok
        next => cases ok
        next =>
          rcases inner : client.getInner answers with ⟨innerActs, result⟩
          rw [inner] at ok
          cases ok
          exact delivered_report (getInner_delivers inner) rfl rfl

/-- A body that is returned is a screened one exactly if its answer came directly. -/
theorem get_screened_iff {url : String} {acts : List Action} {body : String}
    (ok : client.get answers url = (acts, .ok body)) :
    Screened client acts body ↔ ∃ n response, Direct client answers n response := by
  cases get_delivers ok with
  | first n response first direct last read inspected =>
    have text := readBodyCapped_text read
    constructor
    · intro screened
      exact ⟨n, response, first, fun retried => absurd retried direct, fun _ => text ▸ screened.capped,
        fun retried => absurd retried direct⟩
    · rintro ⟨m, other, same⟩
      obtain ⟨rfl, rfl⟩ := first.unique same.first
      exact ⟨.inr ⟨n, last, inspected⟩, text ▸ same.read direct⟩
  | retry n response first retried last read earlier =>
    constructor
    · intro screened
      refine ⟨n, response, first, fun _ => ?_, fun direct => absurd retried direct, fun _ text same => ?_⟩
      · -- what was inspected belongs to an earlier answer
        refine screened.inspected.resolve_right ?_
        rintro ⟨index, last', inspected⟩
        rw [last] at last'
        cases last'
        exact Nat.lt_irrefl _ (earlier _ inspected)
      · rw [read] at same
        cases same
        exact screened.capped
    · rintro ⟨m, other, same⟩
      obtain ⟨rfl, rfl⟩ := first.unique same.first
      exact ⟨.inl (same.retried retried), same.retriedText retried body read⟩

end HttpClient

/-! A server that answers 503 first and a challenge page to the retry. -/

namespace ChallengedRetry

def ascii (body : Bytes) : String := String.ofList (body.map fun b => Char.ofNat b.toNat)

def wholeNumbers : Waf.Floats where
  F64 := Nat
  zero := 0
  ofNat := id
  sub := Nat.sub
  mul := Nat.mul
  div := Nat.div
  log2 := Nat.log2
  gt a b := b < a
  entropyThreshold := 5

def client : HttpClient where
  maxRetries := 1
  backoffBaseMs := 1
  backoffMaxMs := 1
  maxPageBytes := 20
  ignoreWaf := false
  userAgents := ["first", "second"]
  sessionPool := none
  parseUrl _ := .ok ⟨"https", some "a.org"⟩
  extractDomain _ := some "a.org"
  decode _ := ascii
  text response := .ok (ascii (wholeBody response))
  floats := wholeNumbers

def answer (status : UInt16) (body : String) : Answer :=
  .ok ⟨status, .ok "https://a.org/", [⟨"content-type", some "text/html"⟩], [], [.ok (Waf.bytes body)]⟩

def page : String := "<p>cf-turnstile-response</p>"

def answers (n : Nat) : Answer := if n = 0 then answer 503 "busy" else answer 200 page

def plainAnswers (_ : Nat) : Answer := answer 200 "<p>news</p>"

def retriedActs : List Action :=
  [.request ⟨0, "first", true⟩, .inspect 0 "busy" false, .sleep 1, .request ⟨1, "first", true⟩]

def plainActs : List Action := [.request ⟨0, "first", true⟩, .inspect 0 "<p>news</p>" false]

/-- The page is returned, longer than the cap, and was never inspected; the inspector blocks it. -/
theorem challenge_returned : client.get answers "https://a.org/" = (retriedActs, .ok page) ∧
    (∀ response, answers 1 = .ok response → (client.verdictOn response page).isBlocked = true) ∧
    ¬ Screened client retriedActs page := by
  refine ⟨by decide +kernel, ?_, ?_⟩
  · rintro response ⟨⟩
    decide +kernel
  · intro screened
    rcases screened.inspected with ignored | ⟨index, last, inspected⟩
    · cases ignored
    · -- the only inspection is that of the first answer
      obtain rfl : 1 = index := Option.some.inj last
      exact absurd inspected (by decide)

/-- A page that is the first answer. -/
theorem first_answer_screened : client.get plainAnswers "https://a.org/" = (plainActs, .ok "<p>news</p>") ∧
    Screened client plainActs "<p>news</p>" := by
  have got : client.get plainAnswers "https://a.org/" = (plainActs, .ok "<p>news</p>") := by decide +kernel
  have unretried : ¬ Retried plainAnswers 0 := fun ⟨_, below, _⟩ => Nat.not_lt_zero _ below
  refine ⟨got, (HttpClient.get_screened_iff got).mpr ⟨0, _, ⟨rfl, by decide, nofun⟩, ?_, ?_, ?_⟩⟩
  · exact fun retried => absurd retried unretried
  · exact fun _ => by decide +kernel
  · exact fun retried => absurd retried unretried

end ChallengedRetry

end Webfang.Http
