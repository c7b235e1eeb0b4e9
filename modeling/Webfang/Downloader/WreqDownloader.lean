import Webfang.Downloader.WreqResponse
import Webfang.Library.Retry

/-!
# The wreq downloader

`infrastructure/downloader/wreq_downloader.rs`: one fetch is a bounded loop of attempts over
the answers to its requests, the n-th request getting the n-th answer. Each attempt sends one
request, and the first one may send a second with another User-Agent. The log events are left
out.
-/
namespace Webfang.Downloader

open Library
open Waf (Bytes InspectionContext WafVerdict)

def wafSniffMaxBytes : Nat := 8 * 1024

def fallbackAgents : List String := [
  "Mozilla/5.0 (Windows NT 10.0; Win64; x64) AppleWebKit/537.36 (KHTML, like Gecko) Chrome/131.0.0.0 Safari/537.36",
  "Mozilla/5.0 (Macintosh; Intel Mac OS X 10_15_7) AppleWebKit/537.36 (KHTML, like Gecko) Chrome/131.0.0.0 Safari/537.36",
  "Mozilla/5.0 (X11; Linux x86_64) AppleWebKit/537.36 (KHTML, like Gecko) Chrome/131.0.0.0 Safari/537.36",
  "Mozilla/5.0 (Windows NT 10.0; Win64; x64) AppleWebKit/537.36 (KHTML, like Gecko) Chrome/132.0.0.0 Safari/537.36",
  "Mozilla/5.0 (Macintosh; Intel Mac OS X 10_15_7) AppleWebKit/537.36 (KHTML, like Gecko) Chrome/132.0.0.0 Safari/537.36",
  "Mozilla/5.0 (Windows NT 10.0; Win64; x64; rv:123.0) Gecko/20100101 Firefox/123.0",
  "Mozilla/5.0 (Macintosh; Intel Mac OS X 10.15; rv:123.0) Gecko/20100101 Firefox/123.0"]

/-- `decode` gives the text of a body under a charset label, and the inspector has its
arithmetic from `floats`. -/
structure WreqDownloader where
  timeoutSecs : Nat
  pinnedUa : Option String
  maxRetries : Nat
  backoffBaseMs : Nat
  backoffMaxMs : Nat
  maxPageBytes : Nat
  ignoreWaf : Bool
  decode : String → Bytes → String
  floats : Waf.Floats

/-- The requests of a fetch are numbered; one may override the User-Agent. -/
structure Request where
  index : Nat
  userAgent : Option String
  deriving DecidableEq, Repr

/-- What a fetch does: a request, an inspection of what was read of the answer to one, and a
pause. -/
inductive Action where
  | request (sent : Request)
  | inspect (index : Nat) (text : String) (blocked : Bool)
  | sleep (ms : Nat)
  deriving DecidableEq, Repr

/-- The requests sent so far, and the variables of the loop. -/
structure FetchState where
  sent : Nat
  lastStatus : UInt16
  lastError : Option DownloadError
  deriving DecidableEq, Repr

namespace WreqDownloader

variable (d : WreqDownloader)

def sendRequest : Answer → Except DownloadError Response
  | .ok response => .ok response
  | .error e => .error (if e.isTimeout then .timeout d.timeoutSecs else .ofWreq e)

def backoffDelayMs (attempt : Nat) : Nat :=
  min (min (d.backoffBaseMs * min (2 ^ attempt) (2 ^ 64 - 1)) (2 ^ 64 - 1)) d.backoffMaxMs

def sleepBeforeRetry (attempt delayMs : Nat) : List Action :=
  if attempt < d.maxRetries then [.sleep delayMs] else []

def readBodyBounded (response : Response) (limit : Nat) (onOverflow : BoundedRead) :
    Except DownloadError String :=
  (collectBody limit onOverflow [] response.body).map (d.decode response.charset)

def readBodyCapped (response : Response) : Except DownloadError String :=
  d.readBodyBounded response d.maxPageBytes .abort

def readBodySnippet (response : Response) : Except DownloadError String :=
  d.readBodyBounded response wafSniffMaxBytes .truncate

def buildPage (url : Url) (response : Response) : Fetched :=
  match response.url with
  | .error message => .error (.invalidUrl message)
  | .ok finalUrl =>
    (d.readBodyCapped response).map fun html => {
      url := finalUrl
      html
      status := response.status
      headers := response.headers.foldl (fun map h =>
        map.insert (Text.toAsciiLowercase h.name) (h.value.getD "")) ∅
      cookies := extractCookies url response }

/-! ### The inspection of an answer that is no success -/

def inspectionContext (response : Response) : InspectionContext :=
  .fromLowercaseHeaders response.status (lowercaseHeaders response.headers) false

def verdictOn (response : Response) (text : String) : WafVerdict :=
  Waf.inspect d.floats (Waf.bytes text) (inspectionContext response)

/-- The headers first, and the first bytes of the body where the status is one a WAF answers
with: the texts that were inspected with their verdicts, and whether the fetch goes on. -/
def inspectAnswer (response : Response) : List (String × Bool) × Except DownloadError Unit :=
  let conclude (verdict : WafVerdict) : Except DownloadError Unit :=
    if verdict.isBlocked then .error (.wafChallenge verdict.evidenceChain) else .ok ()
  if d.ignoreWaf then ([], .ok ())
  else
    let verdict := d.verdictOn response ""
    if verdict.isBlocked || !Waf.isT2BlockingStatus (some response.status) then
      ([("", verdict.isBlocked)], conclude verdict)
    else
      match d.readBodySnippet response with
      -- the error goes out of the fetch, not to the next attempt
      | .error e => ([("", false)], .error e)
      | .ok snippet =>
        let verdict := d.verdictOn response snippet
        ([("", false), (snippet, verdict.isBlocked)], conclude verdict)

/-! ### One attempt -/

def retryAfterMs (response : Response) : Option Nat :=
  if response.status = 429 then some (response.parseRetryAfterMs d.backoffMaxMs) else none

def isRetriedStatus (status : UInt16) : Bool := status == 429 || (500 ≤ status && status ≤ 599)

def retryOrFail (attempt sent : Nat) (status : UInt16) (retryAfter : Option Nat) :
    List Action × Turn FetchState Fetched :=
  if isRetriedStatus status then
    let delay :=
      if status = 429 then max (retryAfter.getD 0) (d.backoffDelayMs attempt)
      else d.backoffDelayMs attempt
    (d.sleepBeforeRetry attempt delay, .again ⟨sent, status, none⟩)
  else ([], .done (.error (.http status s!"HTTP {status}")))

/-- The request with another User-Agent, whose answer is not inspected. -/
def rotatedRequest (url : Url) (answers : Nat → Answer) (attempt sent : Nat) :
    List Action × Turn FetchState Fetched :=
  let request := Action.request ⟨sent, fallbackAgents[1]?⟩
  match d.sendRequest (answers sent) with
  | .error e => ([request], .done (.error e))
  | .ok response =>
    if response.isSuccess then ([request], .done (d.buildPage url response))
    else
      let (acts, turn) := d.retryOrFail attempt (sent + 1) response.status (d.retryAfterMs response)
      (request :: acts, turn)

/-- One turn of the loop of `fetch_inner`. -/
def attemptOnce (url : Url) (answers : Nat → Answer) (attempt : Nat) (state : FetchState) :
    List Action × Turn FetchState Fetched :=
  let request := Action.request ⟨state.sent, none⟩
  match d.sendRequest (answers state.sent) with
  | .error e =>
    if e.classify = .permanentFatal then ([request], .done (.error e))
    else
      (request :: d.sleepBeforeRetry attempt (d.backoffDelayMs attempt),
        .again { state with sent := state.sent + 1, lastError := some e })
  | .ok response =>
    if response.isSuccess then ([request], .done (d.buildPage url response))
    else
      let (inspected, judged) := d.inspectAnswer response
      let inspections := inspected.map fun (text, blocked) => Action.inspect state.sent text blocked
      match judged with
      | .error e => (request :: inspections, .done (.error e))
      | .ok () =>
        let (acts, turn) :=
          if response.status = 403 ∧ attempt = 0 ∧ d.pinnedUa = none then
            d.rotatedRequest url answers attempt (state.sent + 1)
          else
            d.retryOrFail attempt (state.sent + 1) response.status (d.retryAfterMs response)
        (request :: (inspections ++ acts), turn)

/-- What is returned when the retries are exhausted. -/
def exhausted (state : FetchState) : Fetched :=
  .error (state.lastError.getD
    (.http state.lastStatus s!"retries exhausted at status {state.lastStatus}"))

def fetchInner (url : Url) (answers : Nat → Answer) : List Action × Fetched :=
  Retry.loop (d.attemptOnce url answers) exhausted (d.maxRetries + 1) 0 ⟨0, 0, none⟩

end WreqDownloader

end Webfang.Downloader
