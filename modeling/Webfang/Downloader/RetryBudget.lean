import Webfang.Downloader.FetchAttempts
import Webfang.Waf.ChallengeDetection

/-!
# The retry budget

A fetch is to spend its retries on transient failures wherever they arise. The first request
of an attempt goes through the classification of errors; a body that breaks off and a rotated
request that gets no answer end the fetch with their error, and the retries that are left are
not used. The contract holds exactly where neither happens with a retry left.
-/
namespace Webfang.Downloader

open Library

/-- The classes of errors that pass. -/
def DownloadError.Transient (e : DownloadError) : Prop :=
  e.classify = .transientRetriable ∨ e.classify = .transientBackoff

namespace Outcome

/-- An error that passes, or a status that is tried again. A challenge is no such failure. -/
def Transient : Outcome → Prop
  | .unanswered e | .unread e => e.Transient
  | .status s => WreqDownloader.isRetriedStatus s = true
  | .page _ | .challenge _ => False

def DescribedBy (e : DownloadError) : Outcome → Prop
  | .unanswered cause | .unread cause => e = cause
  | .status s => ∃ message, e = .http s message
  | .challenge message => e = .wafChallenge message
  | .page _ => False

variable {o : Outcome}

theorem page_of_ending {again : Bool} {page : FetchedPage}
    (ended : (if again then o.lastWord else o.ending) = .ok page) : o = .page page := by
  cases o <;> cases again <;> cases ended <;> rfl

theorem describedBy_of_ending {again : Bool} {e : DownloadError}
    (ended : (if again then o.lastWord else o.ending) = .error e) : o.DescribedBy e := by
  cases o <;> cases again <;> cases ended <;> first | rfl | exact ⟨_, rfl⟩

/-- A transient outcome asks for another attempt, short of the two exits. -/
theorem Transient.asksAgain_or {rotated : Bool} (transient : o.Transient) :
    o.asksAgain rotated = true ∨
      ∃ e : DownloadError, e.Transient ∧ (o = .unread e ∨ rotated = true ∧ o = .unanswered e) := by
  cases o with
  | page => cases transient
  | challenge => cases transient
  | status => exact .inl transient
  | unread e => exact .inr ⟨e, transient, .inl rfl⟩
  | unanswered e =>
    cases rotated with
    | true => exact .inr ⟨e, transient, .inr ⟨rfl, rfl⟩⟩
    | false =>
      have passes : e.classify ≠ .permanentFatal := by
        rcases transient with here | here <;> simp [here]
      exact .inl (by simpa [asksAgain] using passes)

end Outcome

namespace WreqDownloader

variable (d : WreqDownloader) (url : Url) (answers : Nat → Answer)

structure MeetsContract : Prop where
  bounded : (d.fetchRequests url answers).length ≤ d.maxRetries + 2
  /-- The first page ends the fetch. -/
  returned : ∀ sent ∈ d.fetchRequests url answers, ∀ page,
    d.comesTo url answers sent = .page page →
      (d.fetchRequests url answers).getLast? = some sent ∧ (d.fetchInner url answers).2 = .ok page
  read : ∀ page, (d.fetchInner url answers).2 = .ok page →
    ∃ sent, (d.fetchRequests url answers).getLast? = some sent ∧
      d.comesTo url answers sent = .page page
  /-- A transient failure ends the fetch only after the last retry. -/
  spent : ∀ e, (d.fetchInner url answers).2 = .error e →
    ∀ sent, (d.fetchRequests url answers).getLast? = some sent →
      (d.comesTo url answers sent).Transient →
        (d.fetchRequests url answers).countP (·.userAgent.isNone) = d.maxRetries + 1 ∧
          (d.comesTo url answers sent).DescribedBy e

/-- The attempt breaks off on a body, or on a rotated request without an answer. -/
def CutShort (attempt : Nat) : Prop :=
  ∃ e : DownloadError, e.Transient ∧
    (d.settled url answers attempt = .unread e ∨
      d.rotatesAt url answers attempt = true ∧ d.settled url answers attempt = .unanswered e)

/-- An attempt with a retry left is cut short. -/
def EndsEarly : Prop :=
  ∃ attempt < d.maxRetries, (∀ earlier < attempt, d.asksAgain url answers earlier = true) ∧
    d.CutShort url answers attempt

variable {d url answers} {attempt last : Nat} {sent : Request}

/-! ### Counting the requests -/

theorem comesTo_rotated (rotated : d.rotatesAt url answers attempt = true) :
    d.comesTo url answers ⟨0, none⟩ = .status 403 := by
  obtain ⟨cleared, rfl, -⟩ := rotatesAt_iff.mp rotated
  rwa [firstIndex_zero] at cleared

theorem length_requests_le (n : Nat) :
    ((List.range (n + 1)).flatMap (d.attemptRequests url answers)).length ≤ n + 2 := by
  induction n with
  | zero =>
    rcases d.attemptRequests_cases url answers 0 with ⟨-, here⟩ | ⟨-, here⟩ <;> simp [here]
  | succ n ih =>
    -- only the first attempt rotates
    rcases d.attemptRequests_cases url answers (n + 1) with ⟨-, here⟩ | ⟨rotated, -⟩
    · rw [List.range_succ, List.flatMap_append, List.length_append, List.flatMap_singleton, here]
      exact Nat.succ_le_succ ih
    · cases (rotatesAt_iff.mp rotated).2.1

theorem count_first (n : Nat) :
    ((List.range n).flatMap (d.attemptRequests url answers)).countP (·.userAgent.isNone) = n := by
  induction n with
  | zero => rfl
  | succ n ih =>
    rw [List.range_succ, List.flatMap_append, List.countP_append, ih, List.flatMap_singleton]
    rcases d.attemptRequests_cases url answers n with ⟨rotated, here⟩ | ⟨rotated, here⟩
    · simp [here, lastRequest, rotated]
    · simp [here, lastRequest, rotated, fallbackAgents]

/-! ### When the contract holds -/

theorem returned_of_ends (ends : d.EndsAt url answers last)
    (member : sent ∈ d.fetchRequests url answers) {page : FetchedPage}
    (read : d.comesTo url answers sent = .page page) :
    (d.fetchRequests url answers).getLast? = some sent ∧
      (d.fetchInner url answers).2 = .ok page := by
  obtain ⟨attempt, within, rfl | ⟨rotated, rfl⟩⟩ := ends.request_cases member
  · rw [comesTo_lastRequest] at read
    have final : d.asksAgain url answers attempt = false := by rw [asksAgain, read]; rfl
    obtain before | rfl := Nat.lt_or_eq_of_le within
    · -- an attempt that read a page asks for no other
      rw [ends.retried attempt before] at final
      cases final
    · refine ⟨ends.getLast, ?_⟩
      rw [ends.result, final, read]
      rfl
  · rw [comesTo_rotated rotated] at read
    cases read

/-- Where nothing is cut short, a transient end comes after the last retry. -/
theorem spent_of_ends (kept : ¬ d.EndsEarly url answers) (ends : d.EndsAt url answers last)
    (transient : (d.settled url answers last).Transient) : last = d.maxRetries := by
  rcases transient.asksAgain_or with again | cut
  · exact ends.used again
  · refine Nat.le_antisymm ends.within (Nat.le_of_not_lt fun left => ?_)
    exact kept ⟨last, left, ends.retried, cut⟩

theorem CutShort.ends (cut : d.CutShort url answers attempt) :
    d.asksAgain url answers attempt = false ∧ (d.settled url answers attempt).Transient ∧
      ∃ e, (d.settled url answers attempt).ending = .error e := by
  obtain ⟨e, transient, unread | ⟨rotated, unanswered⟩⟩ := cut
  · rw [asksAgain, unread]
    exact ⟨rfl, transient, e, rfl⟩
  · rw [asksAgain, unanswered, rotated]
    exact ⟨rfl, transient, e, rfl⟩

theorem EndsAt.eq_of_cutShort (ends : d.EndsAt url answers last) (left : attempt < d.maxRetries)
    (retried : ∀ earlier < attempt, d.asksAgain url answers earlier = true)
    (cut : d.CutShort url answers attempt) : last = attempt := by
  rcases Nat.lt_trichotomy last attempt with before | rfl | after
  · have exhausted := ends.used (retried last before)
    omega
  · rfl
  · cases cut.ends.1.symm.trans (ends.retried attempt after)

/-- The contract is kept exactly where no transient failure with a retry left comes from a
body or from a rotated request without an answer. -/
theorem meetsContract_iff (d : WreqDownloader) (url : Url) (answers : Nat → Answer) :
    d.MeetsContract url answers ↔ ¬ d.EndsEarly url answers := by
  obtain ⟨last, ends⟩ := d.fetch_endsAt url answers
  constructor
  · rintro contract ⟨attempt, left, retried, cut⟩
    obtain rfl := ends.eq_of_cutShort left retried cut
    obtain ⟨final, transient, e, ended⟩ := cut.ends
    have failed : (d.fetchInner url answers).2 = .error e := by
      rw [ends.result, final]
      exact ended
    have spent := (contract.spent e failed _ ends.getLast (comesTo_lastRequest ▸ transient)).1
    rw [ends.requests, count_first] at spent
    omega
  · intro kept
    refine ⟨?_, fun sent member page => returned_of_ends ends member, fun page fetched => ?_,
      fun e failed sent here transient => ?_⟩
    · rw [ends.requests]
      exact (length_requests_le last).trans (Nat.add_le_add_right ends.within 2)
    · rw [ends.result] at fetched
      exact ⟨_, ends.getLast, comesTo_lastRequest.trans (Outcome.page_of_ending fetched)⟩
    · rw [ends.getLast] at here
      cases here
      rw [comesTo_lastRequest] at transient ⊢
      rw [ends.result] at failed
      refine ⟨?_, Outcome.describedBy_of_ending failed⟩
      rw [ends.requests, count_first, spent_of_ends kept ends transient]

end WreqDownloader

/-! The connection breaks in the first body; the next request would be answered in full. -/

namespace BrokenBody

def url : Url := ⟨"https://a.test/", some "a.test"⟩

/-- The bodies here are ASCII text. -/
def decode (_ : String) (body : Waf.Bytes) : String :=
  String.ofList (body.map fun b => Char.ofNat b.toNat)

def downloader : WreqDownloader where
  timeoutSecs := 10
  pinnedUa := none
  maxRetries := 3
  backoffBaseMs := 1000
  backoffMaxMs := 10000
  maxPageBytes := 50000000
  ignoreWaf := false
  decode := decode
  floats := Waf.HcaptchaScript.wholeNumbers

def reset : WreqError :=
  ⟨false, false, "error decoding response body",
    [⟨some .connectionReset, "connection reset by peer"⟩]⟩

def response (body : List (Except WreqError Waf.Bytes)) : Response :=
  ⟨200, .ok "https://a.test/", [], [], body⟩

def broken : Response := response [.ok (Waf.bytes "<p>Hel"), .error reset]

def answers : Nat → Answer
  | 0 => .ok broken
  | _ + 1 => .ok (response [.ok (Waf.bytes "<p>Hello</p>")])

def interrupted : DownloadError := .io .connectionReset "connection reset by peer"

open WreqDownloader

/-- Three retries are left when the fetch fails. -/
theorem broken_body_is_not_retried :
    downloader.fetchInner url answers = ([.request ⟨0, none⟩], .error interrupted) ∧
    interrupted.Transient ∧ ¬ downloader.MeetsContract url answers := by
  have collected : collectBody 50000000 .abort [] broken.body = .error interrupted := by
    decide +kernel
  have unread : downloader.buildPage url broken = .error interrupted := by
    have read : downloader.readBodyCapped broken = .error interrupted := by
      simp only [readBodyCapped, readBodyBounded, downloader, collected, Except.map]
    have address : broken.url = .ok "https://a.test/" := rfl
    simp only [buildPage, address, read, Except.map]
  have success : broken.isSuccess = true := by decide
  have got : downloader.sendRequest (answers 0) = .ok broken := rfl
  have fetched : downloader.fetchInner url answers =
      ([.request ⟨0, none⟩], .error interrupted) := by
    simp only [fetchInner, Retry.loop, attemptOnce, got, success, unread, if_true]
  have passes : interrupted.Transient := .inl rfl
  refine ⟨fetched, passes, fun contract => ?_⟩
  have sent : downloader.fetchRequests url answers = [⟨0, none⟩] := by
    rw [fetchRequests, fetched]
    rfl
  have here : downloader.comesTo url answers ⟨0, none⟩ = .unread interrupted := by
    simp only [comesTo, outcome, got, success, unread, if_true]
  -- one first request was sent where four were due
  have spent := (contract.spent interrupted (by rw [fetched]) ⟨0, none⟩ (by rw [sent]; rfl)
    (by rw [here]; exact passes)).1
  rw [sent] at spent
  cases spent

end BrokenBody

end Webfang.Downloader
