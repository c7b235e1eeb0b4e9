import Webfang.Downloader.WreqResponse
import Webfang.Library.Retry

/-!
# The hardened HTTP client

`application/http_client/client.rs` and `retry.rs`: one `get` sends requests one after the other, the
n-th request getting the n-th answer, and does something with each answer. A first response is read
and inspected, and 429 and 5xx go on to a loop of retries. What the `wreq`, `url` and `encoding_rs`
crates do is a parameter; the wait of the rate limiter and the log events are left out.
-/
namespace Webfang.Http

open Library
open Downloader (Response WreqError lowercaseHeaders)
open Waf (Bytes InspectionContext WafVerdict)

inductive HttpError where
  | forbidden
  | rateLimited (retryAfter : Nat)
  | clientError (status : UInt16)
  | serverError (status : UInt16)
  | timeout
  | connection (message : String)
  | request (message : String)
  | wafChallenge (provider : String)
  | domainBanned (domain : String)
  | bodyTooLarge (limit : Nat)
  deriving DecidableEq, Repr

/-- A request that got no answer. -/
structure SendError where
  isTimeout : Bool
  isConnect : Bool
  message : String
  deriving DecidableEq, Repr

abbrev Answer := Except SendError Response

structure ParsedUrl where
  scheme : String
  host : Option String
  deriving DecidableEq, Repr

/-- The session pool answers with a session for the domain, or that it is banned. -/
structure HttpClient where
  maxRetries : Nat
  backoffBaseMs : Nat
  backoffMaxMs : Nat
  maxPageBytes : Nat
  ignoreWaf : Bool
  userAgents : List String
  sessionPool : Option (String → Option Nat)
  parseUrl : String → Except String ParsedUrl
  extractDomain : String → Option String
  /-- `encoding_rs`: the text of a body under a charset label. -/
  decode : String → Bytes → String
  /-- `wreq::Response::text`. -/
  text : Response → Except SendError String
  floats : Waf.Floats

/-- The requests of a `get` are numbered. From the fifth User-Agent on two headers are left out. -/
structure Request where
  index : Nat
  userAgent : String
  allHeaders : Bool
  deriving DecidableEq, Repr

/-- What a `get` does. An inspection is one of a text read from the answer with that number. -/
inductive Action where
  | request (sent : Request)
  | inspect (index : Nat) (text : String) (blocked : Bool)
  | sleep (ms : Nat)
  | reportSuccess (domain : String) (session : Nat)
  | reportFailure (domain : String) (session : Nat) (status : UInt16)
  deriving DecidableEq, Repr

def isServerError (status : UInt16) : Bool := 500 ≤ status && status ≤ 599

def computeBackoffDelay (attempt : Nat) (retryAfterSecs : Option Nat) (baseMs maxMs : Nat) : Nat :=
  let exponential :=
    let exponent := attempt - 1
    min (baseMs * (2 ^ exponent % 2 ^ 64) % 2 ^ 64) maxMs
  match retryAfterSecs with
  | some secs => if 0 < secs then secs * 1000 % 2 ^ 64 else exponential
  | none => exponential

def mapSendError (e : SendError) : HttpError :=
  if e.isTimeout then .timeout else if e.isConnect then .connection e.message else .request e.message

/-- The differences between the two loops of retries. -/
structure RetryPolicy where
  retryAfterSecs : Option Nat
  retryable : UInt16 → Bool
  exhausted : HttpError

/-- The requests sent so far, and whether the last failure was a timeout. -/
structure RetryState where
  sent : Nat
  lastFailureWasTimeout : Bool
  deriving DecidableEq, Repr

/-- The loop of `read_body_capped`. -/
def readBody (limit : Nat) : (buf : Bytes) → List (Except WreqError Bytes) → Except HttpError Bytes
  | buf, [] => .ok buf
  | _, .error e :: _ => .error (.request e.message)
  | buf, .ok chunk :: rest =>
    if limit < buf.length + chunk.length then .error (.bodyTooLarge limit)
    else readBody limit (buf ++ chunk) rest

namespace HttpClient

variable (client : HttpClient)

def readBodyCapped (response : Response) : Except HttpError String :=
  (readBody client.maxPageBytes [] response.body).map (client.decode response.charset)

def inspectionContext (response : Response) : InspectionContext :=
  .fromLowercaseHeaders response.status (lowercaseHeaders response.headers) client.ignoreWaf

def verdictOn (response : Response) (body : String) : WafVerdict :=
  Waf.inspect client.floats (Waf.bytes body) (client.inspectionContext response)

def wafBlockError (index : Nat) (response : Response) (body : String) : Action × Option HttpError :=
  let verdict := client.verdictOn response body
  (.inspect index body verdict.isBlocked,
    if verdict.isBlocked then some (.wafChallenge verdict.evidenceChain) else none)

def selectUserAgent (uaIndex : Nat) : String :=
  (client.userAgents[uaIndex % client.userAgents.length]?).getD
    "Mozilla/5.0 (Windows NT 10.0; Win64; x64) AppleWebKit/537.36"

/-! ### Sending -/

variable (answers : Nat → Answer)

/-- One turn of `send_with_timeout_retry`: the answer, and how many requests there were. -/
def sendOnce (ua : String) (uaIndex attempt sent : Nat) :
    List Action × Turn Nat (Nat × Except HttpError Response) :=
  let request := Action.request ⟨sent, ua, decide (uaIndex < 4)⟩
  match answers sent with
  | .ok response => ([request], .done (sent + 1, .ok response))
  | .error e =>
    if !e.isTimeout then ([request], .done (sent + 1, .error (mapSendError e)))
    else if client.maxRetries ≤ attempt then ([request], .done (sent + 1, .error .timeout))
    else
      let delay := computeBackoffDelay (attempt + 1) none client.backoffBaseMs client.backoffMaxMs
      ([request, .sleep delay], .again (sent + 1))

/-- The last attempt never asks for another one. -/
def sendWithTimeoutRetry (ua : String) (uaIndex sent : Nat) :
    List Action × (Nat × Except HttpError Response) :=
  Retry.loop (client.sendOnce answers ua uaIndex) (fun sent => (sent, .error .timeout))
    (client.maxRetries + 1) 0 sent

/-! ### The loop of retries -/

def retryOnce (ua : String) (policy : RetryPolicy) (attempt : Nat) (state : RetryState) :
    List Action × Turn RetryState (Except HttpError String) :=
  let delay :=
    computeBackoffDelay (attempt + 1) policy.retryAfterSecs client.backoffBaseMs client.backoffMaxMs
  let acts := [.sleep delay, .request ⟨state.sent, ua, true⟩]
  match answers state.sent with
  | .ok response =>
    if response.isSuccess then
      -- the text goes out as it is
      (acts, .done ((client.text response).mapError fun e => .request e.message))
    else if policy.retryable response.status then (acts, .again { state with sent := state.sent + 1 })
    else (acts, .done (.error (.clientError response.status)))
  | .error e => (acts, .again ⟨state.sent + 1, e.isTimeout⟩)

def retryWithBackoff (ua : String) (policy : RetryPolicy) (sent : Nat) :
    List Action × Except HttpError String :=
  Retry.loop (client.retryOnce answers ua policy)
    (fun state => .error (if state.lastFailureWasTimeout then .timeout else policy.exhausted))
    client.maxRetries 0 ⟨sent, false⟩

/-! ### First responses -/

/-- `index` is the number of the answer. -/
def handleSuccess (index : Nat) (response : Response) : List Action × Except HttpError String :=
  match client.readBodyCapped response with
  | .error e => ([], .error e)
  | .ok body =>
    let (inspection, blocked) := client.wafBlockError index response body
    ([inspection], match blocked with
      | some err => .error err
      | none => .ok body)

def handleRateLimited (index : Nat) (response : Response) (ua : String) :
    List Action × Except HttpError String :=
  let retryAfter := (response.header "retry-after").bind Text.parseUsize
  client.retryWithBackoff answers ua
    ⟨retryAfter, fun code => code == 429 || isServerError code, .rateLimited (retryAfter.getD 0)⟩ (index + 1)

/-- Of an error page that cannot be read only the headers are inspected. -/
def errorPageText (response : Response) : String :=
  match client.readBodyCapped response with
  | .ok body => body
  | .error _ => ""

def handleServerError (index : Nat) (response : Response) (ua : String) :
    List Action × Except HttpError String :=
  let (inspection, blocked) := client.wafBlockError index response (client.errorPageText response)
  match blocked with
  | some err => ([inspection], .error err)
  | none =>
    let (acts, result) :=
      client.retryWithBackoff answers ua ⟨none, isServerError, .serverError response.status⟩ (index + 1)
    (inspection :: acts, result)

/-- One turn of the loop of `get_inner`, with this User-Agent. -/
def round (uaIndex sent : Nat) : List Action × Turn Nat (Except HttpError String) :=
  if client.userAgents.length ≤ uaIndex ∧ 0 < uaIndex then ([], .done (.error .forbidden))
  else
    let ua := client.selectUserAgent uaIndex
    let (acts, sent, answer) := client.sendWithTimeoutRetry answers ua uaIndex sent
    match answer with
    | .error e => (acts, .done (.error e))
    | .ok response =>
      let status := response.status
      if response.isSuccess then
        let (more, result) := client.handleSuccess (sent - 1) response
        (acts ++ more, .done result)
      else if status = 403 then
        if uaIndex = 0 then (acts, .again sent) else (acts, .done (.error .forbidden))
      else if status = 429 then
        let (more, result) := client.handleRateLimited answers (sent - 1) response ua
        (acts ++ more, .done result)
      else if isServerError status then
        let (more, result) := client.handleServerError answers (sent - 1) response ua
        (acts ++ more, .done result)
      else if 300 ≤ status ∧ status ≤ 499 then (acts, .done (.error (.clientError status)))
      else (acts, .done (.error (.serverError status)))

/-- The second User-Agent is the last one: a 403 asks for another only at the first. -/
def getInner : List Action × Except HttpError String :=
  Retry.loop (client.round answers) (fun _ => .error .forbidden) 2 0 0

/-! ### The whole request -/

def reportOutcome (domain : String) (session : Nat) : Except HttpError String → List Action
  | .ok _ => [.reportSuccess domain session]
  | .error (.wafChallenge _) => [.reportFailure domain session 403]
  | .error .forbidden => [.reportFailure domain session 403]
  | .error (.rateLimited _) => [.reportFailure domain session 429]
  | .error .timeout => [.reportFailure domain session 504]
  | .error (.connection _) => [.reportFailure domain session 503]
  | .error (.clientError code) => if code = 404 then [] else [.reportFailure domain session code]
  | .error (.serverError code) => [.reportFailure domain session code]
  | .error (.request _) => []
  | .error (.domainBanned _) => []
  | .error (.bodyTooLarge _) => []

def get (url : String) : List Action × Except HttpError String :=
  match client.parseUrl url with
  | .error e => ([], .error (.request s!"Invalid URL: {e}"))
  | .ok parsed =>
    if parsed.scheme ∉ ["http", "https"] then
      ([], .error (.request "URL must use http or https scheme"))
    else
      match client.sessionPool with
      | none => client.getInner answers
      | some acquire =>
        let domain := (client.extractDomain url).getD (parsed.host.getD "unknown")
        match acquire domain with
        | none => ([], .error (.domainBanned domain))
        | some session =>
          let (acts, result) := client.getInner answers
          (acts ++ reportOutcome domain session result, result)

end HttpClient

end Webfang.Http
