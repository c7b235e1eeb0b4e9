import Webfang.Downloader.DownloaderPort
import Webfang.Downloader.SpaDetector

/-!
# The hybrid router

`infrastructure/downloader/hybrid_router.rs`: static HTTP first, then a subprocess, then a
browser. The layers answer as they like; what the router makes of each answer is a function
of its own, and `fetch_inner` chains them. The browser waits for `resource_governor.rs`: a check of the
memory in use, and a semaphore of permits. A pending `acquire` holds nothing, so the governor's state is
the permits that are free and whether the cancellation token has fired.
-/
namespace Webfang.Downloader

def warningThreshold : UInt8 := 80

def criticalThreshold : UInt8 := 90

inductive ResourceError where
  | ramTooHigh (usage : UInt8)
  | insufficient (message : String)
  deriving DecidableEq, Repr

def ResourceError.message : ResourceError → String
  | .ramTooHigh usage =>
    "RAM usage too high (" ++ toString usage ++ "%): new Chrome instances denied"
  | .insufficient message => "insufficient resources: " ++ message

def ResourceError.download (e : ResourceError) : DownloadError := .resourceExhausted e.message

structure ResourceGovernor where
  maxPermits : Nat
  available : Nat
  cancelled : Bool
  deriving DecidableEq, Repr

namespace ResourceGovernor

/-- `with_max_instances`: a budget of nothing is a budget of one. -/
def withMaxInstances (maxPermits : Nat) : ResourceGovernor where
  maxPermits := max maxPermits 1
  available := max maxPermits 1
  cancelled := false

variable (governor : ResourceGovernor)

/-- `usage` is the percentage of memory in use when the check is made. The count that a
passed check returns is only ever logged. -/
def checkResources (usage : UInt8) : Except ResourceError Nat :=
  if criticalThreshold ≤ usage then .error (.ramTooHigh usage)
  else if warningThreshold ≤ usage then .ok (governor.available / 2)
  else .ok governor.available

/-- The branch of `acquire` where the semaphore hands out a permit. -/
def grant : Option ResourceGovernor :=
  if 0 < governor.available then some { governor with available := governor.available - 1 }
  else none

/-- The branch of `acquire` where the token has fired. -/
def abort : Option DownloadError := if governor.cancelled then some .cancelled else none

/-- A permit is dropped. -/
def release : ResourceGovernor := { governor with available := governor.available + 1 }

/-- The token fires. -/
def cancel : ResourceGovernor := { governor with cancelled := true }

end ResourceGovernor

/-! ### The router -/

inductive Layer where
  | wreq
  | obscura
  | chromiumoxide
  deriving DecidableEq, Repr

/-- What follows an answer: the fetch is over, or the next layer is tried. -/
inductive Next where
  | done (result : Fetched)
  | escalate

structure HybridRouter where
  detector : SpaDetector
  ignoreWaf : Bool

/-- What the outside does to one fetch: the answer each layer would give, and the memory in
use before layers 2 and 3. -/
structure Behaviour where
  layer1 : Fetched
  usage2 : UInt8
  layer2 : Fetched
  usage3 : UInt8
  layer3 : Fetched

def Behaviour.answer (behaviour : Behaviour) : Layer → Fetched
  | .wreq => behaviour.layer1
  | .obscura => behaviour.layer2
  | .chromiumoxide => behaviour.layer3

namespace HybridRouter

variable (router : HybridRouter)

def signal (page : FetchedPage) : SpaSignal := router.detector.detectSpa page.html router.ignoreWaf

def evaluateFetch (page : FetchedPage) : Except DownloadError (Option FetchedPage) :=
  match router.signal page with
  | .staticContent => .ok (some page)
  | .wafBlocked => .error (.wafChallenge "WAF challenge detected in response")
  | .spaDetected _ => .ok none

def afterLayer1 : Fetched → Next
  | .error e => .done (.error e)
  | .ok page =>
    match router.evaluateFetch page with
    | .error e => .done (.error e)
    | .ok (some page) => .done (.ok page)
    | .ok none => .escalate

def checkMemory (governor : ResourceGovernor) (usage : UInt8) : Next :=
  match governor.checkResources usage with
  | .error e => .done (.error e.download)
  | .ok _ => .escalate

/-- A page goes out as it is: only an empty one, or an error that is no challenge, escalates. -/
def afterLayer2 : Fetched → Next
  | .ok page => if page.html.isEmpty then .escalate else .done (.ok page)
  | .error (.wafChallenge msg) => .done (.error (.wafChallenge msg))
  | .error _ => .escalate

/-- The layers that were asked, and what the fetch returns. -/
def fetchInner (governor : ResourceGovernor) (behaviour : Behaviour) : List Layer × Fetched :=
  match router.afterLayer1 behaviour.layer1 with
  | .done result => ([.wreq], result)
  | .escalate =>
    match checkMemory governor behaviour.usage2 with
    | .done result => ([.wreq], result)
    | .escalate =>
      match afterLayer2 behaviour.layer2 with
      | .done result => ([.wreq, .obscura], result)
      | .escalate =>
        match checkMemory governor behaviour.usage3 with
        | .done result => ([.wreq, .obscura], result)
        | .escalate => ([.wreq, .obscura, .chromiumoxide], behaviour.layer3)

/-! ### Challenges at the layers -/

def Blocked (page : FetchedPage) : Prop := router.detector.detectSpa page.html false = .wafBlocked

instance : DecidablePred router.Blocked := fun page =>
  inferInstanceAs (Decidable (router.detector.detectSpa page.html false = .wafBlocked))

/-- No challenge comes out as a page, and one that any layer was served comes out as an
error. -/
def SurfacesChallenges (governor : ResourceGovernor) (behaviour : Behaviour) : Prop :=
  let (asked, result) := router.fetchInner governor behaviour
  (∀ page, result = .ok page → ¬ router.Blocked page) ∧
  ∀ layer ∈ asked, ∀ page, behaviour.answer layer = .ok page → router.Blocked page →
    ∃ message, result = .error (.wafChallenge message)

/-- Layer 1 gets a JavaScript shell, and there is memory for layer 2. -/
def Escalates (behaviour : Behaviour) : Prop :=
  (∃ page, behaviour.layer1 = .ok page ∧ ∃ reason, router.signal page = .spaDetected reason) ∧
    behaviour.usage2 < criticalThreshold

/-- An empty page, or an error that is no challenge. -/
def GivesUp (answer : Fetched) : Prop :=
  (∃ page, answer = .ok page ∧ page.html = "") ∨
    ∃ e, answer = .error e ∧ ∀ message, e ≠ .wafChallenge message

def ServesChallenge (answer : Fetched) : Prop := ∃ page, answer = .ok page ∧ router.Blocked page

variable {router} {governor : ResourceGovernor} {behaviour : Behaviour}

theorem afterLayer1_escalate {answer : Fetched} : router.afterLayer1 answer = .escalate ↔
    ∃ page, answer = .ok page ∧ ∃ reason, router.signal page = .spaDetected reason := by
  cases answer with
  | error e => simp [afterLayer1]
  | ok page => cases seen : router.signal page <;> simp [afterLayer1, evaluateFetch, seen]

theorem checkMemory_escalate {usage : UInt8} :
    checkMemory governor usage = .escalate ↔ usage < criticalThreshold := by
  unfold checkMemory ResourceGovernor.checkResources
  by_cases critical : criticalThreshold ≤ usage
  · simp [critical, UInt8.not_lt.mpr critical]
  · rw [if_neg critical]
    split
    next denied => split at denied <;> cases denied
    next => exact iff_of_true rfl (UInt8.not_le.mp critical)

theorem afterLayer2_escalate {answer : Fetched} : afterLayer2 answer = .escalate ↔ GivesUp answer := by
  cases answer with
  | ok page => by_cases empty : page.html = "" <;> simp [afterLayer2, GivesUp, empty]
  | error e => cases e <;> simp [afterLayer2, GivesUp]

/-- An answer layer 1 ends on: a page it lets through is static, a challenge is an error. -/
theorem afterLayer1_done {answer result : Fetched} (ended : router.afterLayer1 answer = .done result) :
    (∀ page, result = .ok page → router.signal page = .staticContent) ∧
    ∀ page, answer = .ok page → router.signal page = .wafBlocked →
      ∃ message, result = .error (.wafChallenge message) := by
  cases answer with
  | error e =>
    cases ended
    exact ⟨nofun, nofun⟩
  | ok page =>
    cases seen : router.signal page with
    | staticContent =>
      simp only [afterLayer1, evaluateFetch, seen, Next.done.injEq] at ended
      subst ended
      refine ⟨fun same here => by cases here; exact seen, fun same here blocked => ?_⟩
      cases here
      cases seen.symm.trans blocked
    | wafBlocked =>
      simp only [afterLayer1, evaluateFetch, seen, Next.done.injEq] at ended
      subst ended
      exact ⟨nofun, fun _ _ _ => ⟨_, rfl⟩⟩
    | spaDetected reason => simp [afterLayer1, evaluateFetch, seen] at ended

theorem checkMemory_done {usage : UInt8} {result : Fetched} (ended : checkMemory governor usage = .done result) :
    ∃ message, result = .error (.resourceExhausted message) := by
  unfold checkMemory at ended
  split at ended <;> cases ended
  exact ⟨_, rfl⟩

theorem afterLayer2_done {answer result : Fetched} (ended : afterLayer2 answer = .done result) :
    result = answer := by
  unfold afterLayer2 at ended
  split at ended
  · split at ended <;> cases ended
    rfl
  · cases ended
    rfl
  · cases ended

theorem GivesUp.not_challenge {answer : Fetched} (gaveUp : GivesUp answer) :
    ¬ router.ServesChallenge answer := by
  rintro ⟨page, rfl, blocked⟩
  rcases gaveUp with ⟨same, here, empty⟩ | ⟨e, here, -⟩
  · cases here
    unfold Blocked at blocked
    rw [empty] at blocked
    exact SpaDetector.detectSpa_empty blocked
  · cases here

theorem surfaces_of_none {asked : List Layer} {result : Fetched}
    (fetched : router.fetchInner governor behaviour = (asked, result))
    (none : ∀ layer ∈ asked, ¬ router.ServesChallenge (behaviour.answer layer))
    (clean : ¬ router.ServesChallenge result) : router.SurfacesChallenges governor behaviour := by
  unfold SurfacesChallenges
  rw [fetched]
  exact ⟨fun page here blocked => clean ⟨page, here, blocked⟩,
    fun layer member page here blocked => absurd ⟨page, here, blocked⟩ (none layer member)⟩

theorem not_surfaces_of_served {asked : List Layer} {result : Fetched}
    (fetched : router.fetchInner governor behaviour = (asked, result))
    (served : router.ServesChallenge result) : ¬ router.SurfacesChallenges governor behaviour := by
  obtain ⟨page, here, blocked⟩ := served
  unfold SurfacesChallenges
  rw [fetched]
  exact fun surfaces => surfaces.1 page here blocked

/-- Where a challenge that was served is the result, all that counts is the result. -/
theorem surfaces_iff_of_handed {asked : List Layer} {result : Fetched}
    (fetched : router.fetchInner governor behaviour = (asked, result))
    (handed : ∀ layer ∈ asked, router.ServesChallenge (behaviour.answer layer) →
      router.ServesChallenge result) :
    router.SurfacesChallenges governor behaviour ↔ ¬ router.ServesChallenge result := by
  refine ⟨fun surfaces served => not_surfaces_of_served fetched served surfaces, fun clean => ?_⟩
  exact surfaces_of_none fetched (fun layer member served => clean (handed layer member served)) clean

theorem blocked_iff_signal (careful : router.ignoreWaf = false) (page : FetchedPage) :
    router.Blocked page ↔ router.signal page = .wafBlocked := by
  rw [Blocked, HybridRouter.signal, careful]

theorem not_challenge_of_shell {answer : Fetched} (careful : router.ignoreWaf = false)
    (shell : ∃ page, answer = .ok page ∧ ∃ reason, router.signal page = .spaDetected reason) :
    ¬ router.ServesChallenge answer := by
  obtain ⟨page, rfl, reason, detected⟩ := shell
  rintro ⟨_, here, blocked⟩
  cases here
  cases detected.symm.trans ((blocked_iff_signal careful page).mp blocked)

/-- A fetch that ends before layer 2 surfaces what layer 1 was served. -/
theorem surfaces_of_not_escalates (careful : router.ignoreWaf = false)
    (stays : ¬ router.Escalates behaviour) : router.SurfacesChallenges governor behaviour := by
  cases first : router.afterLayer1 behaviour.layer1 with
  | done result =>
    have fetched : router.fetchInner governor behaviour = ([.wreq], result) := by
      rw [fetchInner, first]
    obtain ⟨static, challenge⟩ := afterLayer1_done first
    rw [SurfacesChallenges, fetched]
    refine ⟨fun page here blocked => ?_, fun layer member page here blocked => ?_⟩
    · cases (static page here).symm.trans ((blocked_iff_signal careful page).mp blocked)
    · obtain rfl := List.mem_singleton.mp member
      exact challenge page here ((blocked_iff_signal careful page).mp blocked)
  | escalate =>
    -- memory ran short in front of layer 2
    have shell := afterLayer1_escalate.mp first
    cases memory2 : checkMemory governor behaviour.usage2 with
    | escalate => exact absurd ⟨shell, checkMemory_escalate.mp memory2⟩ stays
    | done result =>
      obtain ⟨message, rfl⟩ := checkMemory_done memory2
      have fetched : router.fetchInner governor behaviour =
          ([.wreq], .error (.resourceExhausted message)) := by simp only [fetchInner, first, memory2]
      refine surfaces_of_none fetched ?_ nofun
      simpa [Behaviour.answer] using not_challenge_of_shell careful shell

/-- Beyond layer 1 it is the layers' pages that count. -/
theorem surfaces_iff_of_escalates (careful : router.ignoreWaf = false)
    (escalates : router.Escalates behaviour) :
    router.SurfacesChallenges governor behaviour ↔
      ¬ (router.ServesChallenge behaviour.layer2 ∨
        GivesUp behaviour.layer2 ∧ behaviour.usage3 < criticalThreshold ∧
          router.ServesChallenge behaviour.layer3) := by
  have first : router.afterLayer1 behaviour.layer1 = .escalate := afterLayer1_escalate.mpr escalates.1
  have memory2 : checkMemory governor behaviour.usage2 = .escalate :=
    checkMemory_escalate.mpr escalates.2
  have quiet1 := not_challenge_of_shell careful escalates.1
  cases second : afterLayer2 behaviour.layer2 with
  | done result =>
    obtain rfl := afterLayer2_done second
    have fetched : router.fetchInner governor behaviour =
        ([.wreq, .obscura], behaviour.layer2) := by simp only [fetchInner, first, memory2, second]
    -- the answer of layer 2 goes out as it is
    have keeps : ¬ GivesUp behaviour.layer2 := fun gaveUp => by
      cases second.symm.trans (afterLayer2_escalate.mpr gaveUp)
    rw [surfaces_iff_of_handed fetched (by simp [Behaviour.answer, quiet1])]
    simp [keeps]
  | escalate =>
    have gaveUp := afterLayer2_escalate.mp second
    have quiet2 : ¬ router.ServesChallenge behaviour.layer2 := gaveUp.not_challenge
    cases memory3 : checkMemory governor behaviour.usage3 with
    | done result =>
      obtain ⟨message, rfl⟩ := checkMemory_done memory3
      have fetched : router.fetchInner governor behaviour =
          ([.wreq, .obscura], .error (.resourceExhausted message)) := by
        simp only [fetchInner, first, memory2, second, memory3]
      -- no memory is left for layer 3
      have short : ¬ behaviour.usage3 < criticalThreshold := fun below => by
        cases memory3.symm.trans (checkMemory_escalate.mpr below)
      refine iff_of_true (surfaces_of_none fetched ?_ nofun) ?_
      · simp [Behaviour.answer, quiet1, quiet2]
      · simp [quiet2, short]
    | escalate =>
      -- the answer of layer 3 goes out as it is
      have below := checkMemory_escalate.mp memory3
      have fetched : router.fetchInner governor behaviour =
          ([.wreq, .obscura, .chromiumoxide], behaviour.layer3) := by
        simp only [fetchInner, first, memory2, second, memory3]
      rw [surfaces_iff_of_handed fetched (by simp [Behaviour.answer, quiet1, quiet2])]
      simp [gaveUp, quiet2, below]

/-- The router keeps its promise except where layer 2 or layer 3, when it comes to them, hands
over a challenge page. -/
theorem surfaces_challenges_iff (router : HybridRouter) (careful : router.ignoreWaf = false)
    (governor : ResourceGovernor) (behaviour : Behaviour) :
    router.SurfacesChallenges governor behaviour ↔
      ¬ (router.Escalates behaviour ∧
        (router.ServesChallenge behaviour.layer2 ∨
          GivesUp behaviour.layer2 ∧ behaviour.usage3 < criticalThreshold ∧
            router.ServesChallenge behaviour.layer3)) := by
  by_cases escalates : router.Escalates behaviour
  · rw [surfaces_iff_of_escalates careful escalates]
    simp [escalates]
  · exact iff_of_true (surfaces_of_not_escalates careful escalates) fun broken =>
      escalates broken.1

end HybridRouter

/-! A shell at layer 1, a challenge at layer 2. -/

namespace ChallengeAtLayer2

def shell : String := "<div id=\"root\"></div>"

def challenge : String := "<div id=\"challenge-running\">Checking your browser</div>"

def parseDocument (html : String) : List TextNode :=
  if html = challenge then [⟨["div", "body", "html"], "Checking your browser"⟩] else []

def router : HybridRouter := ⟨⟨parseDocument, Waf.HcaptchaScript.wholeNumbers⟩, false⟩

def page (html : String) : FetchedPage := ⟨"https://a.test/", html, 200, ∅, []⟩

def behaviour : Behaviour where
  layer1 := .ok (page shell)
  usage2 := 50
  layer2 := .ok (page challenge)
  usage3 := 50
  layer3 := .error (.internal "not asked")

open HybridRouter

/-- The challenge comes out as the fetched page. -/
theorem challenge_is_returned :
    router.fetchInner (.withMaxInstances 1) behaviour = ([.wreq, .obscura], .ok (page challenge)) ∧
    router.Blocked (page challenge) ∧
    ¬ router.SurfacesChallenges (.withMaxInstances 1) behaviour := by
  have seen : router.signal (page shell) = .spaDetected (.mountPoint "React #root") := by
    decide +kernel
  have blocked : router.Blocked (page challenge) := by decide +kernel
  have full : (page challenge).html.isEmpty = false := by decide
  have first : router.afterLayer1 behaviour.layer1 = .escalate :=
    afterLayer1_escalate.mpr ⟨page shell, rfl, _, seen⟩
  have memory : checkMemory (.withMaxInstances 1) behaviour.usage2 = .escalate :=
    checkMemory_escalate.mpr (by decide)
  have second : afterLayer2 behaviour.layer2 = .done (.ok (page challenge)) := by
    simp [afterLayer2, behaviour, full]
  have fetched : router.fetchInner (.withMaxInstances 1) behaviour =
      ([.wreq, .obscura], .ok (page challenge)) := by simp only [fetchInner, first, memory, second]
  exact ⟨fetched, blocked, not_surfaces_of_served fetched ⟨_, rfl, blocked⟩⟩

/-- Where layer 2 fails and layer 3 renders the page, nothing is handed over. -/
theorem shell_surfaces :
    router.SurfacesChallenges (.withMaxInstances 1)
      { behaviour with layer2 := .error (.timeout 30), layer3 := .ok (page shell) } := by
  refine (surfaces_challenges_iff router rfl _ _).mpr ?_
  rintro ⟨-, ⟨served, here, -⟩ | ⟨-, -, served, here, blocked⟩⟩
  · cases here
  · cases here
    exact absurd blocked (by decide +kernel)

end ChallengeAtLayer2

end Webfang.Downloader
