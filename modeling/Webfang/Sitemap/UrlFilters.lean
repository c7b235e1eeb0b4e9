import Webfang.Sitemap.SitemapDiscovery

/-!
# What the URL filters let through

`filter_relevant_urls` compares paths as texts: it keeps a section and what lies below it, and besides them
every section whose name only starts like it. `matches_pattern` answers as documented except where the host
part of a pattern has upper-case letters, and for a pattern `*.D/P` other than `*.D/*`, which covers nothing.
-/
namespace Webfang.Sitemap

open Library

variable {floats : Floats}

/-! ### Sections -/

/-- The segments of a path. A slash at its end makes none, and the root has the empty one with which every
path begins. -/
def segments (path : String) : List (List Char) :=
  (if canonicalPath path = "/" then [] else (canonicalPath path).toList).splitOn '/'

def Below (target path : String) : Prop := segments target <+: segments path

/-- Where the target has its last name, the path has a longer one that starts with it. -/
def Sibling (target path : String) : Prop :=
  ∃ front name more rest, more ≠ [] ∧ segments target = front ++ [name] ∧
    segments path = front ++ (name ++ more) :: rest

theorem not_below_of_sibling {target path : String} (sibling : Sibling target path) :
    ¬ Below target path := by
  obtain ⟨front, name, more, rest, longer, atTarget, atPath⟩ := sibling
  rw [Below, atTarget, atPath, List.prefix_append_right_inj, List.cons_prefix_cons]
  rintro ⟨same, -⟩
  exact longer (List.append_right_eq_self.mp same.symm)

theorem canonicalPath_absolute {path : String} {rest : List Char} (absolute : path.toList = '/' :: rest) :
    ∃ rest, (canonicalPath path).toList = '/' :: rest := by
  unfold canonicalPath
  split
  next long =>
    cases stripped : Text.stripSuffix path "/" with
    | none => exact ⟨rest, absolute⟩
    | some front =>
      have whole := congrArg String.toList (Text.stripSuffix_eq_some_iff.mp stripped)
      rw [absolute, String.toList_append] at whole
      cases chars : front.toList with
      | nil =>
        have same : path = "/" := by
          rw [Text.stripSuffix_eq_some_iff.mp stripped, String.toList_eq_nil_iff.mp chars]
          rfl
        rw [same] at long
        exact absurd long (by decide)
      | cons c front =>
        rw [chars] at whole
        exact ⟨front, by rw [Option.getD_some, chars, ← (List.cons.inj whole).1]⟩
  next => exact ⟨rest, absolute⟩

/-- The comparison of `filter_relevant_urls`, by the segments. -/
theorem startsWith_canonicalPath_iff (target : String) {path : String} {rest : List Char}
    (absolute : path.toList = '/' :: rest) :
    (canonicalPath path).startsWith (canonicalPath target) = true ↔
      Below target path ∨ Sibling target path := by
  obtain ⟨behind, atPath⟩ := canonicalPath_absolute absolute
  have texts : (canonicalPath path).startsWith (canonicalPath target) = true ↔
      (if canonicalPath target = "/" then [] else (canonicalPath target).toList) <+:
        (if canonicalPath path = "/" then [] else (canonicalPath path).toList) := by
    rw [String.startsWith_string_iff]
    by_cases atRoot : canonicalPath target = "/"
    · simp [atRoot, atPath]
    rw [if_neg atRoot]
    by_cases root : canonicalPath path = "/"
    · have chars : ('/' :: []) = "/".toList := rfl
      rw [if_pos root, root, List.prefix_nil, ← chars]
      cases canon : (canonicalPath target).toList with
      | nil => simp
      | cons c front =>
        refine iff_of_false (fun opens => atRoot ?_) (List.cons_ne_nil c front)
        obtain ⟨rfl, last⟩ := List.cons_prefix_cons.mp opens
        rw [List.prefix_nil.mp last] at canon
        exact String.toList_inj.mp canon
    · rw [if_neg root]
  rw [texts, Text.prefix_iff_splitOn '/']
  constructor
  · rintro ⟨front, name, more, rest, atTarget, atPath⟩
    cases more with
    | nil =>
      refine .inl ?_
      rw [Below, segments, segments, atTarget, atPath, List.append_nil, List.prefix_append_right_inj]
      exact List.cons_prefix_cons.mpr ⟨rfl, List.nil_prefix⟩
    | cons c more => exact .inr ⟨front, name, c :: more, rest, List.cons_ne_nil c more, atTarget, atPath⟩
  · rintro (below | ⟨front, name, more, rest, -, atTarget, atPath⟩)
    · have last := List.dropLast_append_getLast (l := segments target) (List.splitOn_ne_nil _ _)
      obtain ⟨rest, whole⟩ := below
      rw [← last, List.append_assoc, List.singleton_append] at whole
      exact ⟨_, _, [], rest, last.symm, by rw [List.append_nil]; exact whole.symm⟩
    · exact ⟨front, name, more, rest, atTarget, atPath⟩

/-- What `url` documents of the paths of http(s) URLs. -/
def UrlCrate.RootedPaths (crate : UrlCrate) : Prop :=
  ∀ url, crate.scheme url = "http" ∨ crate.scheme url = "https" → ∃ rest, (crate.path url).toList = '/' :: rest

/-- A URL of a sitemap is kept by its section except where its path only starts like the target. -/
theorem mem_filterRelevantUrls_iff (site : Site floats) (rooted : site.crates.RootedPaths)
    (targetPath : String) {urls : List (SitemapUrl floats)} {url : SitemapUrl floats} (member : url ∈ urls)
    (http : site.crates.scheme url.url = "http" ∨ site.crates.scheme url.url = "https") :
    (url ∈ site.filterRelevantUrls urls targetPath ↔ Below targetPath (site.crates.path url.url)) ↔
      ¬ Sibling targetPath (site.crates.path url.url) := by
  obtain ⟨rest, absolute⟩ := rooted url.url http
  have kept : url ∈ site.filterRelevantUrls urls targetPath ↔
      Below targetPath (site.crates.path url.url) ∨ Sibling targetPath (site.crates.path url.url) := by
    rw [Site.filterRelevantUrls, List.mem_filter, and_iff_right member, Site.isRelevant,
      startsWith_canonicalPath_iff targetPath absolute]
  constructor
  · intro section_only sibling
    exact not_below_of_sibling sibling (section_only.mp (kept.mpr (.inr sibling)))
  · intro apart
    rw [kept, or_iff_left apart]

/-! ### Patterns -/

/-- The three documented shapes of a pattern. -/
inductive Shape where
  | path (glob : String)
  | host (name : String)
  | subdomains (domain : String)
  | subdomainPaths (domain rest : List Char)
  deriving DecidableEq

def shapeOf (pattern : String) : Option Shape :=
  if ['/'] <+: pattern.toList ∨ ['*', '/'] <+: pattern.toList then some (.path pattern)
  else
    match Text.stripPrefix pattern "*." with
    | some rest =>
      match rest.toList.span (· != '/') with
      | (domain, []) => some (.subdomains (String.ofList domain))
      | (domain, _ :: rest) => some (.subdomainPaths domain rest)
    | none => if '/' ∈ pattern.toList then none else some (.host pattern)

def lowerCase (chars : List Char) : List Char := chars.map Char.toLower

/-- The host is a subdomain of the domain, whatever the case of their letters. A label may be empty. -/
def Under (domain host : List Char) : Prop := ∃ labels, lowerCase host = labels ++ '.' :: lowerCase domain

def Shape.Covers (crates : PatternCrates) (host path : String) : Shape → Prop
  | .path glob => (crates.glob glob).any (fun isMatch => isMatch path) = true
  | .host name => lowerCase host.toList = lowerCase name.toList
  | .subdomains domain => Under domain.toList host.toList
  | .subdomainPaths domain rest => Under domain host.toList ∧
      (crates.glob (String.ofList ('/' :: rest))).any (fun isMatch => isMatch path) = true

/-- The shapes that the code does not read as documented: upper-case letters in the part for the host, and a
path other than `/*` behind the domain. -/
def Shape.Deaf : Shape → Prop
  | .path _ => False
  | .host name => lowerCase name.toList ≠ name.toList
  | .subdomains domain => lowerCase domain.toList ≠ domain.toList
  | .subdomainPaths domain rest => lowerCase domain ≠ domain ∨ rest ≠ ['*']

/-- What `url` documents of an http(s) URL, and `globset` of `/*`. -/
structure PatternCrates.Documented (crates : PatternCrates) : Prop where
  rooted : crates.RootedPaths
  host : ∀ url, crates.scheme url = "http" ∨ crates.scheme url = "https" →
    ∃ host, crates.hostStr url = some host ∧ lowerCase host.toList = host.toList ∧ '/' ∉ host.toList
  anyPath : ∃ isMatch, crates.glob "/*" = some isMatch ∧ ∀ path, path.startsWith "/" = true → isMatch path = true

section Patterns

variable {crates : PatternCrates} {host path : String} {domain : List Char}

/-- Of a host in lower case a domain is the end, up to letter case, if it is in lower case and is the end. -/
theorem ends_iff {host : List Char} (low : lowerCase host = host) :
    (∃ labels, host = labels ++ '.' :: domain) ↔ Under domain host ∧ lowerCase domain = domain := by
  have dot : Char.toLower '.' = '.' := by decide
  constructor
  · rintro ⟨labels, rfl⟩
    have parts : lowerCase labels ++ '.' :: lowerCase domain = labels ++ '.' :: domain := by
      simpa [lowerCase, dot] using low
    have same := (List.append_inj parts (List.length_map _)).2
    have lowDomain := (List.cons.inj same).2
    exact ⟨⟨labels, low.trans (by rw [lowDomain])⟩, lowDomain⟩
  · rintro ⟨⟨labels, whole⟩, lowDomain⟩
    exact ⟨labels, by rw [← low, whole, lowDomain]⟩

theorem stripSuffix_dot_iff {domain : String} :
    (Text.stripSuffix host ("." ++ domain)).isSome = true ↔
      ∃ labels, host.toList = labels ++ '.' :: domain.toList := by
  have dot : ("." ++ domain).toList = '.' :: domain.toList := by rw [String.toList_append]; rfl
  rw [Option.isSome_iff_exists]
  constructor
  · rintro ⟨front, stripped⟩
    refine ⟨front.toList, ?_⟩
    rw [Text.stripSuffix_eq_some_iff.mp stripped, String.toList_append, dot]
  · rintro ⟨labels, whole⟩
    refine ⟨String.ofList labels, Text.stripSuffix_eq_some_iff.mpr (String.toList_inj.mp ?_)⟩
    rw [String.toList_append, String.toList_ofList, dot, whole]

theorem stripSuffix_of_plain {rest : String} (plain : '/' ∉ rest.toList) :
    Text.stripSuffix rest "/*" = none := by
  rw [Option.eq_none_iff_forall_ne_some]
  intro front found
  rw [Text.stripSuffix_eq_some_iff.mp found] at plain
  exact plain (by simp)

/-- With a path other than `/*` behind the domain, a slash stays in the part for the host. -/
theorem slash_mem_of_other {rest : String} {later : List Char} (plain : '/' ∉ domain)
    (whole : domain ++ '/' :: later = rest.toList) (other : later ≠ ['*']) :
    '/' ∈ ((Text.stripSuffix rest "/*").getD rest).toList := by
  cases found : Text.stripSuffix rest "/*" with
  | none =>
    rw [Option.getD_none, ← whole]
    simp
  | some front =>
    rw [Option.getD_some]
    by_contra outside
    have parts := congrArg String.toList (Text.stripSuffix_eq_some_iff.mp found)
    rw [← whole, String.toList_append] at parts
    have chars : "/*".toList = '/' :: ['*'] := rfl
    rw [chars] at parts
    have split := congrArg (List.dropWhile (· != '/')) parts
    have passes : ∀ {text : List Char}, '/' ∉ text → ∀ c ∈ text, (c != '/') = true :=
      fun absent c member => bne_iff_ne.mpr fun same => absent (same ▸ member)
    rw [List.dropWhile_append_of_pos (passes plain), List.dropWhile_append_of_pos (passes outside)] at split
    exact other (by simpa using split)

/-- A pattern answers as documented of the shapes that the code is not deaf to, and else not at all. -/
theorem matchesPattern_iff (documented : crates.Documented) {url parsed pattern : String} {shape : Shape}
    (parses : crates.parse url = .ok parsed)
    (http : crates.scheme parsed = "http" ∨ crates.scheme parsed = "https")
    (named : crates.hostStr parsed = some host) (special : pattern ≠ "" ∧ pattern ≠ "*")
    (shaped : shapeOf pattern = some shape) :
    matchesPattern crates url pattern = true ↔
      shape.Covers crates host (crates.path parsed) ∧ ¬ shape.Deaf := by
  obtain ⟨_, named', low, noSlash⟩ := documented.host parsed http
  obtain rfl := Option.some.inj (named.symm.trans named')
  obtain ⟨behind, absolute⟩ := documented.rooted parsed http
  unfold matchesPattern
  rw [if_neg (by simpa using special), parses]
  dsimp only
  unfold shapeOf at shaped
  have slash : pattern.startsWith "/" = true ↔ ['/'] <+: pattern.toList := String.startsWith_string_iff
  have star : pattern.startsWith "*/" = true ↔ ['*', '/'] <+: pattern.toList := String.startsWith_string_iff
  -- a pattern for the path goes to `globset` as it is
  by_cases opens : ['/'] <+: pattern.toList ∨ ['*', '/'] <+: pattern.toList
  · rw [if_pos opens] at shaped
    obtain rfl := Option.some.inj shaped
    rcases opens with opens | opens
    · rw [if_pos (slash.mpr opens)]
      exact (and_iff_left id).symm
    · rw [if_pos (star.mpr opens), ite_self]
      exact (and_iff_left id).symm
  rw [if_neg opens] at shaped
  rw [not_or] at opens
  rw [if_neg (mt slash.mp opens.1), if_neg (mt star.mp opens.2), named, Option.any_some, hostPatternMatches]
  cases stripped : Text.stripPrefix pattern "*." with
  | none =>
    rw [stripped] at shaped
    dsimp only at shaped ⊢
    split at shaped
    next => cases shaped
    next =>
      obtain rfl := Option.some.inj shaped
      rw [beq_iff_eq, Shape.Covers, Shape.Deaf, low, not_not]
      constructor
      · rintro rfl
        exact ⟨low.symm, low⟩
      · rintro ⟨covers, lowName⟩
        exact String.toList_inj.mp (covers.trans lowName)
  | some rest =>
    rw [stripped] at shaped
    dsimp only at shaped ⊢
    rw [stripSuffix_dot_iff, ends_iff low]
    rw [List.span_eq_takeWhile_dropWhile] at shaped
    have whole := List.takeWhile_append_dropWhile (p := (· != '/')) (l := rest.toList)
    have plain : '/' ∉ rest.toList.takeWhile (· != '/') := fun inside => by
      simpa using List.mem_takeWhile_imp inside
    generalize rest.toList.takeWhile (· != '/') = domain at *
    cases tail : rest.toList.dropWhile (· != '/') with
    | nil =>
      rw [tail] at shaped whole
      obtain rfl := Option.some.inj shaped
      rw [List.append_nil] at whole
      rw [stripSuffix_of_plain (whole ▸ plain), Option.getD_none, ← whole, Shape.Covers, Shape.Deaf, String.toList_ofList, not_not]
    | cons c later =>
      have slash : c = '/' := by
        have first := List.head?_dropWhile_not (· != '/') rest.toList
        rw [tail] at first
        simpa using first
      subst slash
      rw [tail] at shaped whole
      obtain rfl := Option.some.inj shaped
      rw [Shape.Covers, Shape.Deaf, not_or, not_not, not_not]
      -- only `/*` is taken off; another path stays in what the host is compared with
      by_cases any : later = ['*']
      · subst any
        have front : Text.stripSuffix rest "/*" = some (String.ofList domain) := by
          rw [Text.stripSuffix_eq_some_iff, ← String.toList_inj, ← whole, String.toList_append, String.toList_ofList]
          rfl
        obtain ⟨isMatch, glob, all⟩ := documented.anyPath
        have matched : (crates.glob (String.ofList ['/', '*'])).any (fun isMatch => isMatch (crates.path parsed)) =
            true := by
          rw [show String.ofList ['/', '*'] = "/*" from rfl, glob, Option.any_some]
          exact all _ (by rw [String.startsWith_string_iff, absolute]; simp)
        rw [front, Option.getD_some, String.toList_ofList, and_iff_left matched, and_iff_left rfl]
      · refine iff_of_false ?_ fun covered => any covered.2.2
        rw [← ends_iff low]
        rintro ⟨labels, inHost⟩
        have inside := slash_mem_of_other plain whole any
        exact noSlash (by rw [inHost]; exact List.mem_append_right _ (.tail _ inside))

structure Answered (crates : PatternCrates) (url parsed host pattern : String) (shape : Shape) : Prop where
  answer : matchesPattern crates url pattern = true ↔ shape.Covers crates host (crates.path parsed)
  /-- Only the host and the path are looked at. -/
  blind : ∀ other parsed', crates.parse other = .ok parsed' → crates.hostStr parsed' = some host →
    crates.path parsed' = crates.path parsed → matchesPattern crates other pattern = matchesPattern crates url pattern
  refused : ∀ config : CrawlerConfig, pattern ∈ config.excludePatterns →
    shape.Covers crates host (crates.path parsed) → config.isAllowed crates url = false

theorem isAllowed_of_excluded {config : CrawlerConfig} {url pattern : String}
    (listed : pattern ∈ config.excludePatterns) (covered : matchesPattern crates url pattern = true) :
    config.isAllowed crates url = false := by
  rw [CrawlerConfig.isAllowed, if_pos]
  exact List.any_eq_true.mpr ⟨pattern, listed, covered⟩

theorem matchesPattern_congr {url other parsed parsed' : String} (parses : crates.parse url = .ok parsed)
    (parses' : crates.parse other = .ok parsed') (host : crates.hostStr parsed' = crates.hostStr parsed)
    (path : crates.path parsed' = crates.path parsed) (pattern : String) :
    matchesPattern crates other pattern = matchesPattern crates url pattern := by
  simp only [matchesPattern, parses, parses', host, path]

/-- A pattern answers as documented unless it covers the URL and the code is deaf to it. -/
theorem answered_iff (documented : crates.Documented) {url parsed pattern : String} {shape : Shape}
    (parses : crates.parse url = .ok parsed)
    (http : crates.scheme parsed = "http" ∨ crates.scheme parsed = "https")
    (named : crates.hostStr parsed = some host) (special : pattern ≠ "" ∧ pattern ≠ "*")
    (shaped : shapeOf pattern = some shape) :
    Answered crates url parsed host pattern shape ↔
      ¬ (shape.Covers crates host (crates.path parsed) ∧ shape.Deaf) := by
  have matched := matchesPattern_iff documented parses http named special shaped
  constructor
  · rintro answered ⟨covers, deaf⟩
    exact (matched.mp (answered.answer.mpr covers)).2 deaf
  · intro heard
    have answer : matchesPattern crates url pattern = true ↔ shape.Covers crates host (crates.path parsed) := by
      rw [matched]
      exact and_iff_left_of_imp fun covers deaf => heard ⟨covers, deaf⟩
    refine ⟨answer, fun other parsed' parses' named' path => ?_, fun config listed covers => ?_⟩
    · exact matchesPattern_congr parses parses' (named'.trans named.symm) path pattern
    · exact isAllowed_of_excluded listed (answer.mpr covers)

end Patterns

/-! A site whose pages are read off their URLs, and globs in which a star at the end takes the rest. -/

namespace DocsSite

def crates : PatternCrates where
  parse := .ok
  join _ reference := some reference
  scheme _ := "https"
  hostStr _ := some "a.example.com"
  path url := "/" ++ (Text.stripPrefix url "https://a.example.com/").getD ""
  glob pattern := some fun path =>
    match Text.stripSuffix pattern "*" with
    | some front => (Text.stripPrefix path front).isSome
    | none => path == pattern

theorem documented : crates.Documented where
  rooted url _ := ⟨((Text.stripPrefix url "https://a.example.com/").getD "").toList, String.toList_append⟩
  host url _ := ⟨"a.example.com", rfl, by decide, by decide⟩
  anyPath := by
    have front : Text.stripSuffix "/*" "*" = some "/" := by decide
    refine ⟨_, rfl, fun path opens => ?_⟩
    rw [String.startsWith_string_iff] at opens
    obtain ⟨behind, whole⟩ := opens
    have split : path = "/" ++ String.ofList behind :=
      String.toList_inj.mp (by simp [← whole])
    rw [front]
    exact Option.isSome_iff_exists.mpr ⟨_, Text.stripPrefix_eq_some_iff.mpr split⟩

def site : Site wholeNumbers where
  crates := crates
  domainCrates := Domain.plainUrls
  queryPairs _ := 0
  entryGuardHatch := none
  discoveryClient := .ok ()
  parserClients := .ok ()
  discoverSitemapUrl _ := .ok "https://a.example.com/sitemap.xml"
  head _ _ := none
  serve _ _ _ := .error .noUrlsFound

def page : SitemapUrl wholeNumbers := ⟨"https://a.example.com/docs/api/x", none, none, none⟩

def old : SitemapUrl wholeNumbers := ⟨"https://a.example.com/docs-old/x", none, none, none⟩

/-- The pages of another section stay. -/
theorem sibling_kept : old ∈ site.filterRelevantUrls [old] "/docs/" ∧
    ¬ Below "/docs/" (site.crates.path old.url) ∧
    ¬ (old ∈ site.filterRelevantUrls [old] "/docs/" ↔ Below "/docs/" (site.crates.path old.url)) := by
  have kept : old ∈ site.filterRelevantUrls [old] "/docs/" := by
    refine List.mem_filter.mpr ⟨List.mem_singleton_self _, ?_⟩
    rw [Site.isRelevant, String.startsWith_string_iff]
    decide
  have apart : ¬ Below "/docs/" (site.crates.path old.url) := by
    rw [Below, ← List.isPrefixOf_iff_prefix]
    decide
  exact ⟨kept, apart, fun same => apart (same.mp kept)⟩

theorem page_of_section_kept : page ∈ site.filterRelevantUrls [page] "/docs/" := by
  have below : Below "/docs/" (site.crates.path page.url) := by
    rw [Below, ← List.isPrefixOf_iff_prefix]
    decide
  exact ((mem_filterRelevantUrls_iff site documented.rooted "/docs/" (List.mem_singleton_self page)
    (.inr rfl)).mpr fun sibling => not_below_of_sibling sibling below).mpr below

/-- The documented example of a path behind a domain covers the page and does not match it, so the page is
allowed where it is excluded. -/
theorem documented_example_lost :
    shapeOf "*.example.com/docs/*" = some (.subdomainPaths "example.com".toList "docs/*".toList) ∧
      (Shape.subdomainPaths "example.com".toList "docs/*".toList).Covers crates "a.example.com"
        (crates.path page.url) ∧
      matchesPattern crates page.url "*.example.com/docs/*" = false ∧
      CrawlerConfig.isAllowed ⟨[], ["*.example.com/docs/*"], 1⟩ crates page.url = true ∧
      ¬ Answered crates page.url page.url "a.example.com" "*.example.com/docs/*"
        (.subdomainPaths "example.com".toList "docs/*".toList) := by
  have covers : (Shape.subdomainPaths "example.com".toList "docs/*".toList).Covers crates "a.example.com"
      (crates.path page.url) := ⟨⟨['a'], by decide⟩, by decide⟩
  have shaped : shapeOf "*.example.com/docs/*" =
      some (.subdomainPaths "example.com".toList "docs/*".toList) := by decide
  have lost : matchesPattern crates page.url "*.example.com/docs/*" = false := by
    have parses : crates.parse page.url = .ok page.url := rfl
    have matched := matchesPattern_iff documented parses (.inr rfl) rfl (by decide) shaped
    exact Bool.eq_false_iff.mpr fun found => (matched.mp found).2 (.inr (by decide))
  have allowed : CrawlerConfig.isAllowed ⟨[], ["*.example.com/docs/*"], 1⟩ crates page.url = true := by
    simp [CrawlerConfig.isAllowed, CrawlerConfig.isExcluded, CrawlerConfig.matchesInclude, lost]
  refine ⟨shaped, covers, lost, allowed, fun answered => ?_⟩
  rw [answered.answer.mpr covers] at lost
  cases lost

theorem subdomains_answered :
    Answered crates page.url page.url "a.example.com" "*.example.com" (.subdomains "example.com") :=
  (answered_iff documented rfl (.inr rfl) rfl (by decide) (by decide)).mpr fun missed => missed.2 (by decide)

end DocsSite

end Webfang.Sitemap
