import Webfang.Library.CharBoundary
import Webfang.Library.Segments
import Webfang.Sitemap.SitemapDiscovery
import Webfang.Waf.Inspector

/-!
# The sitemap that robots.txt names

`fetch_robots_sitemap` from the request on. A line whose field is spelled neither `Sitemap:` nor `sitemap:`
passes the first test of `extract_robots_sitemap_directive` and is skipped by the second, and the log line
before it cuts the body at a byte.
-/
namespace Webfang.Sitemap

open Library

/-! ### The directive -/

def withoutLineEnd (line : List Char) : List Char :=
  if line.getLast? = some '\n' then
    if line.dropLast.getLast? = some '\r' then line.dropLast.dropLast else line.dropLast
  else line

/-- `content.lines()`. -/
def robotsLines (content : String) : List String :=
  (Segments.segments '\n' content.toList).map fun line => String.ofList (withoutLineEnd line)

/-- `line.to_lowercase().starts_with("sitemap:")`. Beyond ASCII only `İ` and `K` lower to letters of
ASCII: to an `i`, which a combining dot follows, and to a `k`, which the word does not have. -/
def namesSitemap (line : String) : Bool := (Text.stripPrefix (Text.toAsciiLowercase line) "sitemap:").isSome

def directive (line : String) : Option String :=
  (Text.stripPrefix line "Sitemap:").or (Text.stripPrefix line "sitemap:")

def resolveDirective (crate : UrlCrate) (base sitemap : String) : Option String :=
  if (Text.stripPrefix sitemap "http://").isSome || (Text.stripPrefix sitemap "https://").isSome then
    (crate.parse sitemap).toOption
  else crate.join base sitemap

/-- The loop over the lines. -/
def firstDirective (crate : UrlCrate) (base : String) : List String → Option String
  | [] => none
  | line :: lines =>
    if !namesSitemap line then firstDirective crate base lines
    else
      match directive line with
      | none => firstDirective crate base lines
      | some value =>
        match resolveDirective crate base (Text.trim value) with
        | some url => some url
        | none => firstDirective crate base lines

def extractRobotsSitemapDirective (crate : UrlCrate) (content base : String) : Option String :=
  firstDirective crate base (robotsLines content)

/-! ### The request -/

structure RobotsAnswer where
  status : UInt16
  contentType : Option String
  /-- The body, where it can be read. -/
  text : Option String

structure RobotsServer where
  crate : UrlCrate
  floats : Waf.Floats
  get : (url : String) → Option RobotsAnswer
  /-- The log takes lines of its level, so that their arguments are evaluated. -/
  infoEnabled : Bool

inductive RobotsOutcome where
  | panics
  | fails (e : CrawlError)
  | finds (url : Option String)
  deriving DecidableEq, Repr

/-- `&content[..content.len().min(500)]` is a slice: the cut is no place inside a character. -/
def LogCutFits (content : String) : Prop :=
  Subslice.AtBoundary (min content.utf8ByteSize 500) (Waf.bytes content)

instance (content : String) : Decidable (LogCutFits content) := inferInstanceAs (Decidable (Subslice.AtBoundary _ _))

def robotsContext (response : RobotsAnswer) : Waf.InspectionContext where
  status := some response.status
  contentType :=
    let contentType := response.contentType.getD ""
    if contentType.isEmpty then none else some contentType
  headers := ∅
  ignoreWaf := false

def fetchRobotsSitemap (server : RobotsServer) (base : String) : RobotsOutcome :=
  match server.crate.join base "/robots.txt" with
  | none => .finds none
  | some robotsUrl =>
    match server.get robotsUrl with
    | none => .finds none
    | some response =>
      if !Site.isSuccess response.status.toNat then .finds none
      else
        match response.text with
        | none => .finds none
        | some content =>
          let verdict := Waf.inspect server.floats (Waf.bytes content) (robotsContext response)
          if verdict.isBlocked then .fails (.wafChallenge verdict.evidenceChain .bodySignature robotsUrl)
          else if server.infoEnabled && !decide (LogCutFits content) then .panics
          else .finds (extractRobotsSitemapDirective server.crate content base)

/-! ### The first directive -/

def directiveValue (line : String) : Option String :=
  if namesSitemap line then some (String.ofList (line.toList.drop 8)) else none

/-- The URL to which a line's directive resolves, by one of the two ways to read its field. -/
def reads (crate : UrlCrate) (base : String) (field : String → Option String) (line : String) : Option String :=
  (field line).bind fun value => resolveDirective crate base (Text.trim value)

section Directive

variable {crate : UrlCrate} {base : String}

theorem directiveValue_append {field value : String} (low : Text.toAsciiLowercase field = "sitemap:") :
    directiveValue (field ++ value) = some value := by
  have names : namesSitemap (field ++ value) = true := by
    rw [namesSitemap, Text.toAsciiLowercase_append, low, Text.stripPrefix_eq_some_iff.mpr rfl]
    rfl
  have size : field.toList.length = 8 := by
    have chars := congrArg (fun text => text.toList.length) low
    simpa [Text.toAsciiLowercase] using chars
  rw [directiveValue, if_pos names, String.toList_append, ← size, List.drop_left, String.ofList_toList]

/-- A directive that the second test finds passes the first. -/
theorem directiveValue_of_directive {line value : String} (found : directive line = some value) :
    directiveValue line = some value := by
  rw [directive, Option.or_eq_some_iff] at found
  rcases found with found | ⟨-, found⟩
  · rw [Text.stripPrefix_eq_some_iff.mp found]
    exact directiveValue_append (by decide)
  · rw [Text.stripPrefix_eq_some_iff.mp found]
    exact directiveValue_append (by decide)

theorem firstDirective_eq (lines : List String) :
    firstDirective crate base lines = lines.findSome? (reads crate base directive) := by
  induction lines with
  | nil => rfl
  | cons line lines ih =>
    rw [firstDirective, List.findSome?_cons, ih, reads]
    cases found : directive line with
    | none => simp
    | some value =>
      have names : namesSitemap line = true := by
        have both := directiveValue_of_directive found
        by_contra other
        rw [directiveValue, if_neg other] at both
        cases both
      rw [names]
      cases resolved : resolveDirective crate base (Text.trim value) <;> simp [resolved]

end Directive

theorem eq_first_of_found {α β : Type} {search : α → Option β} {a d : α} {list front back : List α} {b b' : β}
    (found : search a = some b) (split : a :: list = front ++ d :: back) (before : ∀ c ∈ front, search c = none)
    (here : search d = some b') : d = a ∧ back = list ∧ b' = b := by
  cases front with
  | nil =>
    rw [List.nil_append, List.cons.injEq] at split
    rw [← split.1, found] at here
    exact ⟨split.1.symm, split.2.symm, (Option.some.inj here).symm⟩
  | cons c front =>
    rw [List.cons_append, List.cons.injEq] at split
    have none := before c List.mem_cons_self
    rw [← split.1, found] at none
    cases none

/-- A weaker search finds the same unless the stronger one finds something first that it passes over, and it
does not find that later. -/
theorem findSome?_eq_iff {α β : Type} {weak strong : α → Option β}
    (weaker : ∀ a b, weak a = some b → strong a = some b) (list : List α) :
    list.findSome? weak = list.findSome? strong ↔
      ¬ ∃ front a back b, list = front ++ a :: back ∧ (∀ c ∈ front, strong c = none) ∧ strong a = some b ∧
        weak a = none ∧ back.findSome? weak ≠ some b := by
  induction list with
  | nil => simp
  | cons a list ih =>
    rw [List.findSome?_cons, List.findSome?_cons]
    cases found : strong a with
    -- both searches pass over the element
    | none =>
      have passed : weak a = none := by
        cases also : weak a with
        | none => rfl
        | some b =>
          rw [weaker a b also] at found
          cases found
      rw [passed]
      dsimp only
      rw [ih, not_iff_not]
      constructor
      · rintro ⟨front, d, back, b, rfl, before, here⟩
        exact ⟨a :: front, d, back, b, rfl, List.forall_mem_cons.mpr ⟨found, before⟩, here⟩
      · rintro ⟨front, d, back, b, split, before, here⟩
        cases front with
        | nil =>
          rw [List.nil_append, List.cons.injEq] at split
          rw [← split.1, found] at here
          cases here.1
        | cons c front =>
          rw [List.cons_append, List.cons.injEq] at split
          exact ⟨front, d, back, b, split.2, fun e member => before e (.tail _ member), here⟩
    | some b =>
      dsimp only
      cases also : weak a with
      | some b' =>
        obtain rfl : b = b' := Option.some.inj (found.symm.trans (weaker a b' also))
        refine iff_of_true rfl ?_
        rintro ⟨front, d, back, b', split, before, here, passed, -⟩
        obtain ⟨rfl, -⟩ := eq_first_of_found found split before here
        rw [also] at passed
        cases passed
      -- only the stronger search finds it, so the weaker one must find the same later
      | none =>
        constructor
        · rintro same ⟨front, d, back, b', split, before, here, -, other⟩
          obtain ⟨-, rfl, rfl⟩ := eq_first_of_found found split before here
          exact other same
        · intro nothing
          by_contra other
          exact nothing ⟨[], a, list, b, rfl, by simp, found, also, other⟩

/-! ### What discovery finds -/

/-- The first directive that resolves is spelled in another case, and the ones spelled as the code reads them
do not give its URL. -/
def Overlooked (crate : UrlCrate) (base : String) (lines : List String) : Prop :=
  ∃ front line back url, lines = front ++ line :: back ∧
    (∀ earlier ∈ front, reads crate base directiveValue earlier = none) ∧
    reads crate base directiveValue line = some url ∧ directive line = none ∧
    back.findSome? (reads crate base directive) ≠ some url

theorem extractRobotsSitemapDirective_eq_iff {crate : UrlCrate} {content base : String} :
    extractRobotsSitemapDirective crate content base =
        (robotsLines content).findSome? (reads crate base directiveValue) ↔
      ¬ Overlooked crate base (robotsLines content) := by
  rw [extractRobotsSitemapDirective, firstDirective_eq, findSome?_eq_iff, not_iff_not]
  · constructor
    · rintro ⟨front, line, back, url, split, before, here, none, later⟩
      refine ⟨front, line, back, url, split, before, here, ?_, later⟩
      cases found : directive line with
      | none => rfl
      | some value =>
        rw [reads, directiveValue_of_directive found, ← found, ← reads, none] at here
        cases here
    · rintro ⟨front, line, back, url, split, before, here, none, later⟩
      exact ⟨front, line, back, url, split, before, here, by rw [reads, none, Option.bind_none], later⟩
  · intro line url found
    rw [reads, Option.bind_eq_some_iff] at found ⊢
    obtain ⟨value, field, resolved⟩ := found
    exact ⟨value, directiveValue_of_directive field, resolved⟩

section Answered

variable (server : RobotsServer) {base robotsUrl content : String} {response : RobotsAnswer}

theorem fetchRobotsSitemap_answered (joined : server.crate.join base "/robots.txt" = some robotsUrl)
    (answered : server.get robotsUrl = some response) (success : Site.isSuccess response.status.toNat = true)
    (body : response.text = some content) :
    fetchRobotsSitemap server base =
      let verdict := Waf.inspect server.floats (Waf.bytes content) (robotsContext response)
      if verdict.isBlocked then .fails (.wafChallenge verdict.evidenceChain .bodySignature robotsUrl)
      else if server.infoEnabled && !decide (LogCutFits content) then .panics
      else .finds (extractRobotsSitemapDirective server.crate content base) := by
  simp only [fetchRobotsSitemap, joined, answered, success, body, Bool.not_true, Bool.false_eq_true, if_false]

/-- Behind a 2xx answer discovery finds what the first directive that resolves names, unless the body is taken
for a challenge page, the log line cuts a character, or that directive is overlooked. -/
theorem fetchRobotsSitemap_finds_iff (joined : server.crate.join base "/robots.txt" = some robotsUrl)
    (answered : server.get robotsUrl = some response) (success : Site.isSuccess response.status.toNat = true)
    (body : response.text = some content) :
    fetchRobotsSitemap server base =
        .finds ((robotsLines content).findSome? (reads server.crate base directiveValue)) ↔
      (Waf.inspect server.floats (Waf.bytes content) (robotsContext response)).isBlocked = false ∧
        (server.infoEnabled = true → LogCutFits content) ∧
        ¬ Overlooked server.crate base (robotsLines content) := by
  rw [fetchRobotsSitemap_answered server joined answered success body]
  dsimp only
  cases blocked : (Waf.inspect server.floats (Waf.bytes content) (robotsContext response)).isBlocked with
  | true => simp
  | false =>
    by_cases cut : server.infoEnabled = true → LogCutFits content
    · have whole : (server.infoEnabled && !decide (LogCutFits content)) = false := by
        cases enabled : server.infoEnabled with
        | true => simpa using cut enabled
        | false => rfl
      simp only [whole, extractRobotsSitemapDirective_eq_iff, Bool.false_eq_true, ↓reduceIte,
        RobotsOutcome.finds.injEq, true_and]
      exact (and_iff_right cut).symm
    · rw [Classical.not_imp] at cut
      simp [cut.1, cut.2]

end Answered

/-! A server whose robots.txt has this body. -/

namespace ShortRobots

def crate : UrlCrate where
  parse := .ok
  join base reference := some (base ++ reference)
  scheme _ := "https"
  hostStr _ := some "a.org"
  path _ := "/"

/-- The bodies are too small for their entropy to be asked for. -/
def floats : Waf.Floats where
  F64 := Nat
  zero := 0
  ofNat := id
  sub := Nat.sub
  mul := Nat.mul
  div := Nat.div
  log2 := Nat.log2
  gt a b := b < a
  entropyThreshold := 5

def answer (body : String) : RobotsAnswer := ⟨200, none, some body⟩

def server (body : String) : RobotsServer := ⟨crate, floats, fun _ => some (answer body), true⟩

def accented : String := String.ofList (List.replicate 499 '#' ++ ['é'])

/-- The directive in capitals is not found, and the body with a character across byte 500 is never read. -/
theorem capitals_passed_over :
    (fetchRobotsSitemap (server "SITEMAP: /a.xml") "https://a.org" = .finds none ∧
      (robotsLines "SITEMAP: /a.xml").findSome? (reads crate "https://a.org" directiveValue) =
        some "https://a.org/a.xml") ∧
    ∀ url, fetchRobotsSitemap (server accented) "https://a.org" ≠ .finds url := by
  have cut : ¬ LogCutFits accented := by decide +kernel
  refine ⟨⟨by decide +kernel, by decide⟩, fun url => ?_⟩
  rw [fetchRobotsSitemap_answered (server accented) rfl rfl (by decide) rfl]
  dsimp only
  split
  next => nofun
  next =>
    rw [if_pos (by simpa [server] using cut)]
    nofun

theorem first_found :
    fetchRobotsSitemap (server "Sitemap: /a.xml\nSITEMAP: /b.xml") "https://a.org" =
      .finds ((robotsLines "Sitemap: /a.xml\nSITEMAP: /b.xml").findSome? (reads crate "https://a.org" directiveValue)) := by
  have found : extractRobotsSitemapDirective crate "Sitemap: /a.xml\nSITEMAP: /b.xml" "https://a.org" =
      (robotsLines "Sitemap: /a.xml\nSITEMAP: /b.xml").findSome? (reads crate "https://a.org" directiveValue) := by
    decide
  refine (fetchRobotsSitemap_finds_iff (server "Sitemap: /a.xml\nSITEMAP: /b.xml") rfl rfl (by decide) rfl).mpr
    ⟨by decide +kernel, fun _ => by decide +kernel, ?_⟩
  exact extractRobotsSitemapDirective_eq_iff.mp found

end ShortRobots

end Webfang.Sitemap
