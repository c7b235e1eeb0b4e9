import Webfang.Network.SsrfGuard

/-!
# The robots.txt cache

`RobotsFetcher` of `infrastructure/crawler/robots_utils.rs`. A check fetches the robots.txt
of its page's origin and keeps the outcome under the key its caller passes, which is the bare
host. So a verdict is that of the first check under the same key.
-/
namespace Webfang.Crawler

open Network

structure RobotsCrates where
  Url : Type
  parse : String → Option Url
  hostStr : Url → Option String
  /-- `url.origin().ascii_serialization()`: scheme, host and port. -/
  origin : Url → String
  oneAgentAllowedByRobots : (content agent url : String) → Bool

inductive RobotsCacheEntry where
  | rules (content : String)
  | allowAll
  deriving DecidableEq, Repr

inductive RobotsDecision where
  | allowed
  | rulesDenied
  | policyRefused (rejection : ForbiddenLiteral)
  deriving DecidableEq, Repr

abbrev RobotsCache := Std.ExtTreeMap String RobotsCacheEntry

/-- What a GET of each robots.txt URL comes to: its body, or a failure of any kind. -/
abbrev Served := String → Option String

/-- One call of `is_allowed`. Every caller passes the host of the URL as the domain, or a
fixed text (the empty one, `unknown`) where it has none. -/
structure Check where
  url : String
  fallback : String
  deriving DecidableEq, Repr

namespace RobotsCrates

variable (crates : RobotsCrates)

def domain (check : Check) : String :=
  ((crates.parse check.url).bind crates.hostStr).getD check.fallback

def robotsTxtUrl (url domain : String) : String :=
  match crates.parse url with
  | some parsed => crates.origin parsed ++ "/robots.txt"
  | none => "https://" ++ domain ++ "/robots.txt"

def fetchOrAllowAll (served : Served) (domain url : String) : RobotsCacheEntry :=
  match served (crates.robotsTxtUrl url domain) with
  | some content => .rules content
  | none => .allowAll

def resolveEntry (served : Served) (cache : RobotsCache) (domain url : String) :
    RobotsCache × RobotsCacheEntry :=
  match cache[domain]? with
  | some entry => (cache, entry)
  | none =>
    let entry := crates.fetchOrAllowAll served domain url
    (cache.insert domain entry, entry)

/-- The guard cuts a forbidden literal before robots.txt is consulted. -/
def refusal (hatch : Option String) (url : String) : Option ForbiddenLiteral :=
  (crates.parse url).bind fun parsed => seedGuardRefusal hatch (crates.hostStr parsed)

def entryDecision (entry : RobotsCacheEntry) (url : String) : RobotsDecision :=
  match entry with
  | .rules content =>
    if crates.oneAgentAllowedByRobots content "*" url then .allowed else .rulesDenied
  | .allowAll => .allowed

def isAllowed (served : Served) (hatch : Option String) (cache : RobotsCache) (url domain : String) :
    RobotsCache × RobotsDecision :=
  match crates.refusal hatch url with
  | some rejection => (cache, .policyRefused rejection)
  | none =>
    let (cache, entry) := crates.resolveEntry served cache domain url
    (cache, crates.entryDecision entry url)

/-- Checks one after the other, with what each answers. -/
def runChecks (served : Served) (hatch : Option String) :
    RobotsCache → List Check → RobotsCache × List RobotsDecision
  | cache, [] => (cache, [])
  | cache, check :: rest =>
    let (cache, decision) := crates.isAllowed served hatch cache check.url (crates.domain check)
    let (cache, decisions) := runChecks served hatch cache rest
    (cache, decision :: decisions)

def ownVerdict (served : Served) (hatch : Option String) (check : Check) : RobotsDecision :=
  match crates.refusal hatch check.url with
  | some rejection => .policyRefused rejection
  | none =>
    crates.entryDecision (crates.fetchOrAllowAll served (crates.domain check) check.url) check.url

/-! ### A run is decided by the first check of each key -/

def consults (hatch : Option String) (check : Check) : Bool :=
  (crates.refusal hatch check.url).isNone

/-- The check that fetched for `check`: the first one of the same key. -/
def fetcher (hatch : Option String) (checks : List Check) (check : Check) : Check :=
  (checks.find? fun earlier =>
    crates.consults hatch earlier && crates.domain earlier == crates.domain check).getD check

/-- The verdict from the entry the cache holds, or else from what the fetcher found. -/
def cachedVerdict (served : Served) (hatch : Option String) (cache : RobotsCache)
    (checks : List Check) (check : Check) : RobotsDecision :=
  match crates.refusal hatch check.url with
  | some rejection => .policyRefused rejection
  | none =>
    let first := crates.fetcher hatch checks check
    crates.entryDecision (cache[crates.domain check]?.getD
      (crates.fetchOrAllowAll served (crates.domain first) first.url)) check.url

variable {crates} {served : Served} {hatch : Option String}

theorem fetcher_cons_refused {check other : Check} {checks : List Check}
    (refused : crates.consults hatch other = false) :
    crates.fetcher hatch (other :: checks) check = crates.fetcher hatch checks check := by
  simp [fetcher, refused]

theorem fetcher_cons_same {check other : Check} {checks : List Check}
    (consults : crates.consults hatch other = true) (same : crates.domain other = crates.domain check) :
    crates.fetcher hatch (other :: checks) check = other := by
  simp [fetcher, consults, same]

theorem fetcher_cons_other {check other : Check} {checks : List Check}
    (distinct : crates.domain other ≠ crates.domain check) :
    crates.fetcher hatch (other :: checks) check = crates.fetcher hatch checks check := by
  simp [fetcher, distinct]

theorem runChecks_eq (cache : RobotsCache) (checks : List Check) :
    (crates.runChecks served hatch cache checks).2 =
      checks.map (crates.cachedVerdict served hatch cache checks) := by
  induction checks generalizing cache with
  | nil => rfl
  | cons check rest ih =>
    simp only [runChecks, isAllowed, List.map_cons]
    cases refused : crates.refusal hatch check.url with
    | some rejection =>
      -- the cache is not touched, and the check fetches for nobody
      have skipped : crates.consults hatch check = false := by simp [consults, refused]
      rw [ih]
      congr 1
      · simp [cachedVerdict, refused]
      · apply List.map_congr_left
        intro later _
        simp only [cachedVerdict, fetcher_cons_refused skipped]
    | none =>
      have consults : crates.consults hatch check = true := by simp [consults, refused]
      cases cached : cache[crates.domain check]? with
      | some entry =>
        simp only [resolveEntry, cached, ih]
        congr 1
        · simp [cachedVerdict, refused, cached]
        · apply List.map_congr_left
          intro later _
          simp only [cachedVerdict]
          cases crates.refusal hatch later.url with
          | some rejection => rfl
          | none =>
            by_cases same : crates.domain check = crates.domain later
            · simp [← same, cached]
            · simp only [fetcher_cons_other same]
      | none =>
        simp only [resolveEntry, cached, ih]
        congr 1
        · simp [cachedVerdict, refused, cached, fetcher_cons_same consults]
        · apply List.map_congr_left
          intro later _
          simp only [cachedVerdict]
          cases crates.refusal hatch later.url with
          | some rejection => rfl
          | none =>
            by_cases same : crates.domain check = crates.domain later
            · -- `check` is the first of its key, so it fetched for `later`
              simp [fetcher_cons_same consults same, ← same, cached]
            · simp [Std.ExtTreeMap.getElem?_insert, same, fetcher_cons_other same]

/-! ### Verdicts and origins -/

variable (crates)

/-- Checks that share a key are about pages of one origin: they would fetch one robots.txt. -/
def OneOriginPerDomain (hatch : Option String) (checks : List Check) : Prop :=
  ∀ a ∈ checks, ∀ b ∈ checks, crates.consults hatch a = true → crates.consults hatch b = true →
    crates.domain a = crates.domain b →
      crates.robotsTxtUrl a.url (crates.domain a) = crates.robotsTxtUrl b.url (crates.domain b)

variable {crates}

theorem fetcher_spec {checks : List Check} {check : Check} (listed : check ∈ checks)
    (consults : crates.consults hatch check = true) :
    crates.fetcher hatch checks check ∈ checks ∧
      crates.consults hatch (crates.fetcher hatch checks check) = true ∧
      crates.domain (crates.fetcher hatch checks check) = crates.domain check := by
  unfold fetcher
  cases found : checks.find? fun earlier =>
      crates.consults hatch earlier && crates.domain earlier == crates.domain check with
  | none =>
    have absent := List.find?_eq_none.mp found check listed
    simp [consults] at absent
  | some first =>
    have holds := List.find?_some found
    simp only [Bool.and_eq_true, beq_iff_eq] at holds
    exact ⟨List.mem_of_find?_eq_some found, holds⟩

theorem fetcher_congr {checks : List Check} {a b : Check} (listed : a ∈ checks)
    (consults : crates.consults hatch a = true) (same : crates.domain a = crates.domain b) :
    crates.fetcher hatch checks a = crates.fetcher hatch checks b := by
  unfold fetcher
  rw [same]
  cases found : checks.find? fun earlier =>
      crates.consults hatch earlier && crates.domain earlier == crates.domain b with
  | none =>
    have absent := List.find?_eq_none.mp found a listed
    simp [consults, same] at absent
  | some first => rfl

theorem verdicts_own {checks : List Check} (separate : crates.OneOriginPerDomain hatch checks)
    (served : Served) : (crates.runChecks served hatch ∅ checks).2 =
      checks.map (crates.ownVerdict served hatch) := by
  rw [runChecks_eq]
  apply List.map_congr_left
  intro check listed
  simp only [cachedVerdict, ownVerdict]
  cases refused : crates.refusal hatch check.url with
  | some rejection => rfl
  | none =>
    have consults : crates.consults hatch check = true := by simp [RobotsCrates.consults, refused]
    obtain ⟨member, first, same⟩ := fetcher_spec listed consults
    have fetched := separate _ member check listed first consults same
    simp [fetchOrAllowAll, fetched]

/-- A robots.txt that only the origin of `check` serves shows who fetched for it. -/
theorem fetcher_origin {checks : List Check}
    (own : ∀ served, (crates.runChecks served hatch ∅ checks).2 =
      checks.map (crates.ownVerdict served hatch)) {check : Check} (listed : check ∈ checks)
    (consults : crates.consults hatch check = true) {content : String}
    (denies : crates.oneAgentAllowedByRobots content "*" check.url = false) :
    let first := crates.fetcher hatch checks check
    crates.robotsTxtUrl first.url (crates.domain first) =
      crates.robotsTxtUrl check.url (crates.domain check) := by
  intro first
  by_contra distinct
  let served : Served := fun url =>
    if url = crates.robotsTxtUrl check.url (crates.domain check) then some content else none
  have refused : crates.refusal hatch check.url = none := by
    simpa [RobotsCrates.consults] using consults
  have verdicts := own served
  rw [runChecks_eq] at verdicts
  have verdict := List.map_inj_left.mp verdicts check listed
  -- its own origin denies the page, the origin that was asked serves nothing
  have denied : crates.ownVerdict served hatch check = .rulesDenied := by
    simp [ownVerdict, refused, fetchOrAllowAll, served, entryDecision, denies]
  have allowed : crates.cachedVerdict served hatch ∅ checks check = .allowed := by
    simp only [cachedVerdict, refused, fetchOrAllowAll, served]
    rw [if_neg distinct]
    simp [entryDecision]
  rw [denied, allowed] at verdict
  cases verdict

/-- Whatever the origins serve, each verdict of a run is that of its page's own origin, if and
only if no two pages of different origins are checked under one key. -/
theorem verdicts_own_iff (crates : RobotsCrates) (hatch : Option String) (checks : List Check)
    (denies : ∀ url, ∃ content, crates.oneAgentAllowedByRobots content "*" url = false) :
    (∀ served, (crates.runChecks served hatch ∅ checks).2 =
        checks.map (crates.ownVerdict served hatch)) ↔
      crates.OneOriginPerDomain hatch checks := by
  constructor
  · intro own a listed b listed' consults consults' same
    obtain ⟨content, denied⟩ := denies a.url
    obtain ⟨content', denied'⟩ := denies b.url
    have fetched := fetcher_origin own listed consults denied
    have fetched' := fetcher_origin own listed' consults' denied'
    rw [fetcher_congr listed consults same] at fetched
    exact fetched.symm.trans fetched'
  · intro separate served
    exact verdicts_own separate served

end RobotsCrates

/-! Two ports of one host. Only the second serves a robots.txt. -/

namespace TwoPorts

/-- The few URLs of the example, as the URL crate reads them. -/
def crates : RobotsCrates where
  Url := String × String
  parse url :=
    if url = "https://example.com/" then some ("example.com", "https://example.com")
    else if url = "https://example.com:8443/private" then
      some ("example.com", "https://example.com:8443")
    else none
  hostStr := fun (host, _) => some host
  origin := fun (_, origin) => origin
  oneAgentAllowedByRobots content _ _ := content != "User-agent: *\nDisallow: /"

def served : Served := fun url =>
  if url = "https://example.com:8443/robots.txt" then some "User-agent: *\nDisallow: /" else none

def front : Check := ⟨"https://example.com/", ""⟩

def guarded : Check := ⟨"https://example.com:8443/private", ""⟩

end TwoPorts

open RobotsCrates in
open TwoPorts in
/-- Alone the page is denied; after a page of the other port it is allowed. -/
theorem order_changes_verdict : (crates.runChecks served none ∅ [guarded]).2 = [.rulesDenied] ∧
      (crates.runChecks served none ∅ [front, guarded]).2 = [.allowed, .allowed] ∧
      crates.ownVerdict served none guarded = .rulesDenied ∧
      ¬ ∀ (crates : RobotsCrates) (hatch : Option String) (checks : List Check) (served : Served),
        (crates.runChecks served hatch ∅ checks).2 =
          checks.map (crates.ownVerdict served hatch) := by
  have run : (crates.runChecks served none ∅ [front, guarded]).2 = [.allowed, .allowed] := by
    rw [runChecks_eq]
    decide
  refine ⟨?_, run, by decide, ?_⟩
  · rw [runChecks_eq]
    decide
  · intro own
    have verdicts := own crates none [front, guarded] served
    rw [run] at verdicts
    exact absurd verdicts (by decide)

open RobotsCrates in
open TwoPorts in
/-- A run over one port meets the condition. -/
theorem verdicts_own_one_port : (crates.runChecks served none ∅ [guarded, guarded]).2 =
      [guarded, guarded].map (crates.ownVerdict served none) := by
  have denies : ∀ url, ∃ content, crates.oneAgentAllowedByRobots content "*" url = false :=
    fun _ => ⟨"User-agent: *\nDisallow: /", rfl⟩
  refine (verdicts_own_iff crates none [guarded, guarded] denies).mpr ?_ served
  intro a listed b listed' _ _ _
  have first : a = guarded := by simpa using listed
  have second : b = guarded := by simpa using listed'
  rw [first, second]

end Webfang.Crawler
