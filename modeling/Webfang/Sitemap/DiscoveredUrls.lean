import Webfang.Library.Checks
import Webfang.Sitemap.SitemapDiscovery

/-!
# What a sitemap crawl returns

The main route filters by the patterns and the depth, and its parse lists no URL twice. The fallback
hands on what the sub-path sitemaps list, all at depth 1: its URLs are sound where these sitemaps
list no URL that the patterns refuse, not the seed, and no URL in two of them.
-/
namespace Webfang.Sitemap

open Library

variable {floats : Floats}

/-- What a crawl promises of its URLs. -/
structure Sound (crates : PatternCrates) (config : CrawlerConfig) (seed : String)
    (urls : List DiscoveredUrl) : Prop where
  allowed : ∀ url ∈ urls, config.isAllowed crates url.url = true
  shallow : ∀ url ∈ urls, url.depth ≤ config.maxDepth
  zero_iff_seed : ∀ url ∈ urls, url.depth = 0 ↔ url.url = seed
  once : (urls.map DiscoveredUrl.url).Nodup

namespace Site

variable (site : Site floats) {config : CrawlerConfig} {base : String}

theorem sound_nil : Sound site.crates config base [] :=
  ⟨nofun, nofun, nofun, List.nodup_nil⟩

/-! ### The main sitemap -/

theorem mem_buildDiscoveredUrls {relevantUrls : List (SitemapUrl floats)} {url : DiscoveredUrl}
    (member : url ∈ site.buildDiscoveredUrls config base relevantUrls) :
    ∃ listed ∈ relevantUrls, config.isAllowed site.crates listed.url = true ∧
      depthOf base listed.url ≤ config.maxDepth ∧
      url = .html listed.url (depthOf base listed.url) base := by
  rw [buildDiscoveredUrls, List.mem_filterMap] at member
  obtain ⟨listed, kept, built⟩ := member
  obtain ⟨member, allowed⟩ := List.mem_filter.mp kept
  dsimp only at built
  split at built
  next gate =>
    cases built
    exact ⟨listed, member, allowed, gate, rfl⟩
  next => cases built

theorem depthOf_eq_zero {url : String} : depthOf base url = 0 ↔ url = base := by
  rw [depthOf]
  split <;> simp_all

/-- Of the URLs it is given the builder keeps some, in their order. -/
theorem urls_buildDiscoveredUrls (relevantUrls : List (SitemapUrl floats)) :
    List.Sublist ((site.buildDiscoveredUrls config base relevantUrls).map DiscoveredUrl.url)
      (relevantUrls.map SitemapUrl.url) := by
  have kept : List.Sublist (relevantUrls.filter fun url => config.isAllowed site.crates url.url)
      relevantUrls := List.filter_sublist
  refine List.Sublist.trans ?_ (kept.map SitemapUrl.url)
  rw [buildDiscoveredUrls, List.map_filterMap]
  clear kept
  induction relevantUrls.filter fun url => config.isAllowed site.crates url.url with
  | nil => exact List.Sublist.slnil
  | cons url rest ih =>
    rw [List.filterMap_cons]
    dsimp only
    split
    next => exact ih.cons _
    next gated =>
      split at gated
      next =>
        cases gated
        exact ih.cons_cons _
      next => cases gated

theorem sound_buildDiscoveredUrls {relevantUrls : List (SitemapUrl floats)}
    (nodup : (relevantUrls.map SitemapUrl.url).Nodup) :
    Sound site.crates config base (site.buildDiscoveredUrls config base relevantUrls) where
  allowed url member := by
    obtain ⟨listed, -, allowed, -, rfl⟩ := site.mem_buildDiscoveredUrls member
    exact allowed
  shallow url member := by
    obtain ⟨listed, -, -, gate, rfl⟩ := site.mem_buildDiscoveredUrls member
    exact gate
  zero_iff_seed url member := by
    obtain ⟨listed, -, -, -, rfl⟩ := site.mem_buildDiscoveredUrls member
    exact depthOf_eq_zero
  once := nodup.sublist (site.urls_buildDiscoveredUrls relevantUrls)

theorem nodup_parseSitemap {sitemapUrl : String} {urls : List (SitemapUrl floats)}
    (parsed : site.parseSitemap sitemapUrl = .ok urls) : (urls.map SitemapUrl.url).Nodup := by
  rw [parseSitemap] at parsed
  cases result : site.sitemapParser.parseFromUrl 0 sitemapUrl with
  | error e =>
    rw [result] at parsed
    cases parsed
  | ok listed =>
    rw [result] at parsed
    cases parsed
    exact site.sitemapParser.nodup_parseFromUrl result

/-! ### The sub-path sitemaps -/

structure Listed (base : String) (number : Nat) (url : String) : Prop where
  served : ∃ candidate sitemapUrl urls, (candidate, number) ∈ (site.subpathCandidates base).zipIdx 1 ∧
    site.crates.join base candidate = some sitemapUrl ∧
    (site.head number sitemapUrl).any isSuccess = true ∧
    site.sitemapParser.parseFromUrl number sitemapUrl = .ok urls ∧ url ∈ urls.map SitemapUrl.url

/-- The sub-path sitemaps stay within the patterns, leave out the seed and do not overlap. -/
structure CleanSubpaths (config : CrawlerConfig) (base : String) : Prop where
  allowed : ∀ number url, site.Listed base number url → config.isAllowed site.crates url = true
  not_seed : ∀ number url, site.Listed base number url → url ≠ base
  apart : ∀ url first second, site.Listed base first url → site.Listed base second url → first = second

theorem trySubpathSitemap_eq_some {number : Nat} {candidate : String} {urls : List (SitemapUrl floats)} :
    site.trySubpathSitemap base number candidate = some urls ↔
      ∃ sitemapUrl, site.crates.join base candidate = some sitemapUrl ∧
        (site.head number sitemapUrl).any isSuccess = true ∧
        site.sitemapParser.parseFromUrl number sitemapUrl = .ok urls := by
  rw [trySubpathSitemap]
  cases joined : site.crates.join base candidate with
  | none => simp
  | some sitemapUrl =>
    dsimp only
    split
    next found =>
      cases parsed : site.sitemapParser.parseFromUrl number sitemapUrl <;>
        simp [found, parsed, Except.toOption]
    next missing => simp [missing]

variable {site}

theorem listed_iff {number : Nat} {url : String} :
    site.Listed base number url ↔
      ∃ candidate, (candidate, number) ∈ (site.subpathCandidates base).zipIdx 1 ∧
        url ∈ ((site.trySubpathSitemap base number candidate).getD []).map SitemapUrl.url := by
  constructor
  · rintro ⟨candidate, sitemapUrl, urls, member, joined, found, parsed, listed⟩
    have tried := site.trySubpathSitemap_eq_some.mpr ⟨sitemapUrl, joined, found, parsed⟩
    exact ⟨candidate, member, by rwa [tried]⟩
  · rintro ⟨candidate, member, listed⟩
    cases tried : site.trySubpathSitemap base number candidate with
    | none =>
      rw [tried] at listed
      cases listed
    | some urls =>
      rw [tried] at listed
      obtain ⟨sitemapUrl, joined, found, parsed⟩ := site.trySubpathSitemap_eq_some.mp tried
      exact ⟨candidate, sitemapUrl, urls, member, joined, found, parsed, listed⟩

theorem map_probeSubpathSitemaps : (site.probeSubpathSitemapsForCrawl base).map SitemapUrl.url =
      ((site.subpathCandidates base).zipIdx 1).flatMap fun part =>
        ((site.trySubpathSitemap base part.2 part.1).getD []).map SitemapUrl.url := by
  rw [probeSubpathSitemapsForCrawl, List.map_flatMap]

theorem mem_probeSubpathSitemaps {url : String} :
    url ∈ (site.probeSubpathSitemapsForCrawl base).map SitemapUrl.url ↔
      ∃ number, site.Listed base number url := by
  rw [map_probeSubpathSitemaps, List.mem_flatMap]
  constructor
  · rintro ⟨⟨candidate, number⟩, member, listed⟩
    exact ⟨number, listed_iff.mpr ⟨candidate, member, listed⟩⟩
  · rintro ⟨number, listed⟩
    obtain ⟨candidate, member, listed⟩ := listed_iff.mp listed
    exact ⟨(candidate, number), member, listed⟩

/-- One sitemap lists no URL twice; two of them may. -/
theorem nodup_probeSubpathSitemaps :
    ((site.probeSubpathSitemapsForCrawl base).map SitemapUrl.url).Nodup ↔
      ∀ url first second, site.Listed base first url → site.Listed base second url → first = second := by
  rw [map_probeSubpathSitemaps, nodup_flatMap_zipIdx]
  · constructor
    · intro apart url first second listed again
      obtain ⟨candidate, member, listed⟩ := listed_iff.mp listed
      obtain ⟨candidate', member', again⟩ := listed_iff.mp again
      exact apart _ member _ member' url listed again
    · rintro apart ⟨candidate, first⟩ member ⟨candidate', second⟩ member' url listed again
      exact apart url first second (listed_iff.mpr ⟨candidate, member, listed⟩)
        (listed_iff.mpr ⟨candidate', member', again⟩)
  · rintro ⟨candidate, number⟩ -
    cases tried : site.trySubpathSitemap base number candidate with
    | none => exact List.nodup_nil
    | some urls =>
      obtain ⟨sitemapUrl, -, -, parsed⟩ := site.trySubpathSitemap_eq_some.mp tried
      exact site.sitemapParser.nodup_parseFromUrl parsed

theorem mem_fallback {discovered : DiscoveredUrl} :
    discovered ∈ (site.probeSubpathSitemapsForCrawl base).map (fun listed => .html listed.url 1 base) ↔
      ∃ number url, site.Listed base number url ∧ discovered = .html url 1 base := by
  rw [List.mem_map]
  constructor
  · rintro ⟨entry, member, rfl⟩
    obtain ⟨number, listed⟩ := mem_probeSubpathSitemaps.mp (List.mem_map.mpr ⟨entry, member, rfl⟩)
    exact ⟨number, entry.url, listed, rfl⟩
  · rintro ⟨number, url, listed, rfl⟩
    obtain ⟨entry, member, rfl⟩ := List.mem_map.mp (mem_probeSubpathSitemaps.mpr ⟨number, listed⟩)
    exact ⟨entry, member, rfl⟩

theorem sound_crawlWithSubpathSitemaps :
    Sound site.crates config base (site.crawlWithSubpathSitemaps base 3 0 config.maxDepth) ↔
      config.maxDepth = 0 ∨ site.CleanSubpaths config base := by
  rw [crawlWithSubpathSitemaps, if_neg (by decide)]
  by_cases zero : config.maxDepth = 0
  · rw [if_pos zero]
    exact iff_of_true site.sound_nil (.inl zero)
  · rw [if_neg zero, or_iff_right zero]
    have urls : ((site.probeSubpathSitemapsForCrawl base).map fun listed =>
        DiscoveredUrl.html listed.url 1 base).map DiscoveredUrl.url =
        (site.probeSubpathSitemapsForCrawl base).map SitemapUrl.url := List.map_map
    constructor
    · intro sound
      refine ⟨fun number url listed => ?_, fun number url listed seed => ?_, ?_⟩
      · exact sound.allowed _ (mem_fallback.mpr ⟨number, url, listed, rfl⟩)
      · -- the seed at depth 1
        have zeroth := (sound.zero_iff_seed _ (mem_fallback.mpr ⟨number, url, listed, rfl⟩)).mpr seed
        exact absurd zeroth one_ne_zero
      · have once := sound.once
        rw [urls] at once
        exact nodup_probeSubpathSitemaps.mp once
    · intro clean
      constructor
      case once =>
        rw [urls]
        exact nodup_probeSubpathSitemaps.mpr clean.apart
      all_goals
        intro discovered member
        obtain ⟨number, url, listed, rfl⟩ := mem_fallback.mp member
      · exact clean.allowed number url listed
      · exact Nat.pos_of_ne_zero zero
      · exact iff_of_false one_ne_zero (clean.not_seed number url listed)

/-! ### The crawl -/

def ListsSection (site : Site floats) (baseUrl base : String) (sitemap : Option String) : Prop :=
  ∃ sitemapUrl urls, site.resolveSitemapUrl baseUrl sitemap = .ok sitemapUrl ∧
    site.parseSitemap sitemapUrl = .ok urls ∧ ∃ url ∈ urls, site.isRelevant (site.crates.path base) url = true

/-- What a crawl that returns has passed through: one of the two routes. -/
theorem crawl_cases {baseUrl : String} {sitemap : Option String} {urls : List DiscoveredUrl}
    (returned : site.crawlWithSitemapResolved config baseUrl sitemap = .ok urls) :
    ∃ base sitemapUrl listed, site.crates.parse baseUrl = .ok base ∧
      site.resolveSitemapUrl baseUrl sitemap = .ok sitemapUrl ∧
      site.parseSitemap sitemapUrl = .ok listed ∧
      ((site.filterRelevantUrls listed (site.crates.path base) = [] ∧
          urls = site.crawlWithSubpathSitemaps base 3 0 config.maxDepth) ∨
        (site.filterRelevantUrls listed (site.crates.path base) ≠ [] ∧
          urls = site.buildDiscoveredUrls config base
            (site.filterRelevantUrls listed (site.crates.path base)))) := by
  rw [crawlWithSitemapResolved, crawlWithSitemapInternal] at returned
  obtain ⟨-, returned⟩ := Checks.then_eq_ok.mp returned
  obtain ⟨-, returned⟩ := Checks.then_eq_ok.mp returned
  obtain ⟨sitemapUrl, resolved, returned⟩ := Checks.bind_eq_ok.mp returned
  obtain ⟨-, returned⟩ := Checks.then_eq_ok.mp returned
  obtain ⟨listed, parsed, returned⟩ := Checks.bind_eq_ok.mp returned
  obtain ⟨base, seed, returned⟩ := Checks.bind_eq_ok.mp returned
  refine ⟨base, sitemapUrl, listed, Checks.mapError_eq_ok.mp seed, resolved, parsed, ?_⟩
  dsimp only at returned
  split at returned
  next empty =>
    cases returned
    exact .inl ⟨List.isEmpty_iff.mp empty, rfl⟩
  next relevant =>
    rw [buildDiscoveredUrlsOrLimitError] at returned
    split at returned
    next => cases returned
    next =>
      cases returned
      exact .inr ⟨fun empty => relevant (List.isEmpty_iff.mpr empty), rfl⟩

theorem listsSection_iff {baseUrl sitemapUrl : String} {sitemap : Option String}
    {listed : List (SitemapUrl floats)} (resolved : site.resolveSitemapUrl baseUrl sitemap = .ok sitemapUrl)
    (parsed : site.parseSitemap sitemapUrl = .ok listed) :
    site.ListsSection baseUrl base sitemap ↔
      site.filterRelevantUrls listed (site.crates.path base) ≠ [] := by
  rw [filterRelevantUrls, Ne, List.filter_eq_nil_iff]
  constructor
  · rintro ⟨other, urls, resolved', parsed', url, member, relevant⟩ none
    obtain rfl : sitemapUrl = other := by simpa [resolved] using resolved'
    obtain rfl : listed = urls := by simpa [parsed] using parsed'
    exact none url member relevant
  · intro some
    simp only [not_forall, not_not] at some
    obtain ⟨url, member, relevant⟩ := some
    exact ⟨sitemapUrl, listed, resolved, parsed, url, member, relevant⟩

/-- What a crawl returns is sound exactly where it came from the main sitemap, or where the sitemaps
of the sub-paths are clean themselves. -/
theorem crawl_sound_iff {baseUrl : String} {sitemap : Option String} {urls : List DiscoveredUrl}
    (returned : site.crawlWithSitemapResolved config baseUrl sitemap = .ok urls) :
    ∃ base, site.crates.parse baseUrl = .ok base ∧
      (Sound site.crates config base urls ↔
        site.ListsSection baseUrl base sitemap ∨ config.maxDepth = 0 ∨ site.CleanSubpaths config base) := by
  obtain ⟨base, sitemapUrl, listed, seed, resolved, parsed, route⟩ := crawl_cases returned
  refine ⟨base, seed, ?_⟩
  rw [listsSection_iff resolved parsed]
  rcases route with ⟨empty, rfl⟩ | ⟨relevant, rfl⟩
  · rw [sound_crawlWithSubpathSitemaps, or_iff_right (not_not_intro empty)]
  · have kept : List.Sublist (site.filterRelevantUrls listed (site.crates.path base)) listed :=
      List.filter_sublist
    have nodup := (site.nodup_parseSitemap parsed).sublist (kept.map SitemapUrl.url)
    exact iff_of_true (site.sound_buildDiscoveredUrls nodup) (.inl relevant)

end Site

/-! A site whose sitemaps list one URL each. -/

namespace SubpathSitemaps

def crates : PatternCrates where
  parse url := if (Text.stripPrefix url "https://a.org").isSome then .ok url else .error "relative"
  join _ reference := some ("https://a.org" ++ reference)
  scheme _ := "https"
  path url := (Text.stripPrefix url "https://a.org").getD "/"
  hostStr _ := some "a.org"
  glob pattern := some fun path => (Text.stripPrefix path (Text.dropLastChar pattern)).isSome

/-- The main sitemap lists the first URL, the sitemaps of the sub-paths the others. -/
def site (main first second : String) : Site wholeNumbers where
  crates := crates
  domainCrates := Domain.plainUrls
  queryPairs _ := 0
  entryGuardHatch := none
  discoveryClient := .ok ()
  parserClients := .ok ()
  discoverSitemapUrl _ := .ok "https://a.org/sitemap.xml"
  head _ _ := some 200
  serve call _ _ :=
    let url := if call = 0 then main else if call = 1 then first else second
    .ok ([⟨url, none, none, none⟩], false)

def config : CrawlerConfig := ⟨[], ["/docs/private*"], 1⟩

def seed : String := "https://a.org/docs"

def crawl (main first second : String) : Except CrawlError (List DiscoveredUrl) :=
  (site main first second).crawlWithSitemapResolved config seed none

/-- The fallback returns an excluded URL, the seed at depth 1, and one URL twice. -/
theorem fallback_unsound : (crawl "https://a.org/blog" "https://a.org/docs/private" seed =
        .ok [.html "https://a.org/docs/private" 1 seed, .html seed 1 seed] ∧
      config.isAllowed crates "https://a.org/docs/private" = false ∧
      ¬ Sound crates config seed
        [.html "https://a.org/docs/private" 1 seed, .html seed 1 seed]) ∧
    (crawl "https://a.org/blog" "https://a.org/docs/x" "https://a.org/docs/x" =
        .ok [.html "https://a.org/docs/x" 1 seed, .html "https://a.org/docs/x" 1 seed] ∧
      ¬ Sound crates config seed
        [.html "https://a.org/docs/x" 1 seed, .html "https://a.org/docs/x" 1 seed]) := by
  refine ⟨⟨by decide +kernel, by decide +kernel, fun sound => ?_⟩, by decide +kernel, fun sound => ?_⟩
  · exact absurd (sound.allowed _ List.mem_cons_self) (by decide +kernel)
  · exact absurd sound.once (by decide)

/-- The same seed where the main sitemap lists a page of its section. -/
theorem main_sitemap_sound : crawl "https://a.org/docs/x" "https://a.org/docs/private" seed =
      .ok [.html "https://a.org/docs/x" 1 seed] ∧
    Sound crates config seed [.html "https://a.org/docs/x" 1 seed] := by
  have returned : crawl "https://a.org/docs/x" "https://a.org/docs/private" seed =
      .ok [.html "https://a.org/docs/x" 1 seed] := by decide +kernel
  refine ⟨returned, ?_⟩
  obtain ⟨base, parsed, sound⟩ := Site.crawl_sound_iff returned
  obtain rfl : seed = base := Except.ok.inj parsed
  refine sound.mpr (.inl ?_)
  have listed : ((site "https://a.org/docs/x" "https://a.org/docs/private" seed).parseSitemap
      "https://a.org/sitemap.xml").map (List.map SitemapUrl.url) = .ok ["https://a.org/docs/x"] := by
    decide +kernel
  cases parsed : (site "https://a.org/docs/x" "https://a.org/docs/private" seed).parseSitemap
      "https://a.org/sitemap.xml" with
  | error e =>
    rw [parsed] at listed
    cases listed
  | ok urls =>
    rw [parsed] at listed
    obtain ⟨url, rfl, same⟩ := List.map_eq_singleton_iff.mp (Except.ok.inj listed)
    exact ⟨"https://a.org/sitemap.xml", [url], by decide, parsed, url, List.mem_singleton_self _,
      by rw [Site.isRelevant, same]; decide +kernel⟩

end SubpathSitemaps

end Webfang.Sitemap
