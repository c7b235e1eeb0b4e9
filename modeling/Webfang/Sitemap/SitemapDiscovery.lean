import Webfang.Network.SsrfGuard
import Webfang.Sitemap.SitemapParser

/-!
# Sitemap discovery

`application/crawler/sitemap_discovery.rs` from the entry on, with the filters of `url_filter.rs` and
`domain/pattern_matching`: the main sitemap, and the sitemaps of the sub-paths where the main one has
no URL of the section. A URL is its serialisation.
-/
namespace Webfang.Sitemap

open Library Network

inductive WafDetectionKind where
  | controlHeader
  | bodySignature
  | silentChallenge
  | entropyAnomaly
  deriving DecidableEq, Repr

inductive CrawlError where
  | http (status : UInt16) (url : String)
  | invalidUrl (message : String)
  | parse (message : String)
  | maxDepthExceeded (current max : Nat)
  | invalidContentType (contentType : String)
  | internal (message : String)
  | sitemapNotFound (url : String)
  | sitemapDepthExceeded
  | sitemapEmpty
  | wafChallenge (provider : String) (kind : WafDetectionKind) (url : String)
  deriving DecidableEq, Repr

structure CrawlerConfig where
  includePatterns : List String
  excludePatterns : List String
  maxDepth : Nat

inductive ContentType where
  | html
  | xml
  | text
  | other
  deriving DecidableEq, Repr

structure DiscoveredUrl where
  url : String
  depth : Nat
  parentUrl : String
  contentType : ContentType
  deriving DecidableEq, Repr

namespace DiscoveredUrl

def html (url : String) (depth : Nat) (parentUrl : String) : DiscoveredUrl :=
  ⟨url, depth, parentUrl, .html⟩

end DiscoveredUrl

/-- `url` and `globset`. -/
structure PatternCrates extends UrlCrate where
  /-- The matcher of a pattern, where it is a glob. -/
  glob : String → Option (String → Bool)

/-- What a crawl meets outside the code. Parses and probes are numbered: the main sitemap is parse
0, the sub-path sitemaps follow in the order in which they are tried. -/
structure Site (floats : Floats) where
  crates : PatternCrates
  domainCrates : Domain.UrlCrates
  queryPairs : String → Nat
  /-- The value of `WEBFANG_DISABLE_SSRF_ENTRY_GUARD`. -/
  entryGuardHatch : Option String
  /-- `create_http_client_with_config` for the discovery, and the error it displays. -/
  discoveryClient : Except String Unit
  /-- `SitemapParser::with_config_and_profile`. -/
  parserClients : Except CrawlError Unit
  discoverSitemapUrl : (baseUrl : String) → Except CrawlError String
  /-- The status that a HEAD request gets, where it is answered. -/
  head : (probe : Nat) → (url : String) → Option Nat
  serve : (call : Nat) → (position : List Nat) → (url : String) →
    Except SitemapError (List (SitemapUrl floats) × Bool)

variable {floats : Floats}

/-! ### Patterns -/

def hostPatternMatches (host pattern : String) : Bool :=
  match Text.stripPrefix pattern "*." with
  | some rest =>
    let domain := (Text.stripSuffix rest "/*").getD rest
    (Text.stripSuffix host ("." ++ domain)).isSome
  | none => host == pattern

def matchesPattern (crates : PatternCrates) (url pattern : String) : Bool :=
  -- the wildcard is decided before the URL is parsed
  if pattern == "" || pattern == "*" then true
  else
    match crates.parse url with
    | .error _ => false
    | .ok url =>
      if pattern.startsWith "/" then (crates.glob pattern).any fun isMatch => isMatch (crates.path url)
      else if pattern.startsWith "*/" then
        (crates.glob pattern).any fun isMatch => isMatch (crates.path url)
      else (crates.hostStr url).any fun host => hostPatternMatches host pattern

namespace CrawlerConfig

variable (config : CrawlerConfig) (crates : PatternCrates)

def isExcluded (url : String) : Bool := config.excludePatterns.any (matchesPattern crates url)

def matchesInclude (url : String) : Bool :=
  if config.includePatterns.isEmpty then true
  else config.includePatterns.any (matchesPattern crates url)

def isAllowed (url : String) : Bool :=
  if config.isExcluded crates url then false else config.matchesInclude crates url

end CrawlerConfig

/-- Without the slash at its end, unless it is one slash. -/
def canonicalPath (path : String) : String :=
  if path.utf8ByteSize > 1 then (Text.stripSuffix path "/").getD path else path

/-- The mapping of `parse_sitemap`. -/
def SitemapError.toCrawlError : SitemapError → CrawlError
  | .httpError status message => .http status message
  | .xmlError e => .parse s!"XML parsing failed: {e}"
  | .invalidContentType contentType => .invalidContentType contentType
  | .sitemapNotFound url => .sitemapNotFound url
  | .maxDepthExceeded => .sitemapDepthExceeded
  | .noUrlsFound => .sitemapEmpty
  | .decompressionError e => .parse s!"decompression failed: {e}"
  | .memoryLimitExceeded mb => .parse s!"sitemap memory limit exceeded: {mb} MB"
  | .allChildrenFailed count details => .parse s!"all {count} child sitemaps failed: {details}"
  | .wafChallenge url provider => .wafChallenge provider .bodySignature url
  | .ssrfLiteralRejected message => .invalidUrl message
  | other => .parse other.display

namespace Site

variable (site : Site floats)

/-! ### The main sitemap -/

def rejectSitemapEntryTarget (rawUrl : String) : Except CrawlError Unit :=
  match site.crates.parse rawUrl with
  | .error e => .error (.invalidUrl s!"URL inválida: {e}")
  | .ok parsed =>
    match seedGuardRefusal site.entryGuardHatch (site.crates.hostStr parsed) with
    | some rejection => .error (.invalidUrl rejection.message)
    | none => .ok ()

def buildDiscoveryClient : Except CrawlError Unit :=
  site.discoveryClient.mapError fun e => .internal s!"failed to build discovery client: {e}"

def resolveSitemapUrl (baseUrl : String) (sitemap : Option String) : Except CrawlError String := do
  let resolved ← match sitemap with
    | some url => .ok url
    | none => site.discoverSitemapUrl baseUrl
  site.rejectSitemapEntryTarget resolved
  return resolved

/-- The settings a crawl asks for; the rest are the defaults. -/
def sitemapParser : SitemapParser floats where
  maxDepth := 3
  memoryLimitMb := 500
  crawlBudgetEnabled := false
  maxParamsThreshold := 5
  queryPairs := site.queryPairs
  crates := site.domainCrates
  serve := site.serve

def parseSitemap (sitemapUrl : String) : Except CrawlError (List (SitemapUrl floats)) :=
  (site.sitemapParser.parseFromUrl 0 sitemapUrl).mapError SitemapError.toCrawlError

def isRelevant (targetPath : String) (url : SitemapUrl floats) : Bool :=
  (canonicalPath (site.crates.path url.url)).startsWith (canonicalPath targetPath)

def filterRelevantUrls (urls : List (SitemapUrl floats)) (targetPath : String) :
    List (SitemapUrl floats) :=
  urls.filter (site.isRelevant targetPath)

/-- The seed has depth 0, everything else in a sitemap is one hop from it. -/
def depthOf (base url : String) : Nat := if url = base then 0 else 1

def buildDiscoveredUrls (config : CrawlerConfig) (base : String) (relevantUrls : List (SitemapUrl floats)) :
    List DiscoveredUrl :=
  (relevantUrls.filter fun url => config.isAllowed site.crates url.url).filterMap fun url =>
    let depth := depthOf base url.url
    if depth ≤ config.maxDepth then some (.html url.url depth base) else none

def buildDiscoveredUrlsOrLimitError (config : CrawlerConfig) (base : String)
    (relevantUrls : List (SitemapUrl floats)) : Except CrawlError (List DiscoveredUrl) :=
  let discovered := site.buildDiscoveredUrls config base relevantUrls
  if discovered.isEmpty && config.maxDepth == 0 then .error (.maxDepthExceeded 1 0)
  else .ok discovered

/-! ### The sitemaps of the sub-paths -/

/-- For up to three levels of the path: `/docs/sitemap.xml`, `/docs/sitemap_index.xml`, ... -/
def subpathCandidates (base : String) : List String :=
  let segments := ((site.crates.path base).toList.splitOn '/').filter fun segment => !segment.isEmpty
  (List.range (min segments.length 3)).flatMap fun i =>
    let subPath := "/".intercalate ((segments.take (i + 1)).map String.ofList)
    ["sitemap.xml", "sitemap_index.xml"].map fun sitemapName => s!"/{subPath}/{sitemapName}"

def isSuccess (status : Nat) : Bool := 200 ≤ status && status < 300

/-- The URLs of one candidate, none unless it is there and can be parsed. -/
def trySubpathSitemap (base : String) (number : Nat) (candidate : String) :
    Option (List (SitemapUrl floats)) :=
  match site.crates.join base candidate with
  | none => none
  | some sitemapUrl =>
    if (site.head number sitemapUrl).any isSuccess then
      (site.sitemapParser.parseFromUrl number sitemapUrl).toOption
    else none

def probeSubpathSitemapsForCrawl (base : String) : List (SitemapUrl floats) :=
  ((site.subpathCandidates base).zipIdx 1).flatMap fun (candidate, number) =>
    (site.trySubpathSitemap base number candidate).getD []

def crawlWithSubpathSitemaps (base : String) (sitemapMaxDepth sitemapCurrentDepth crawlMaxDepth : Nat) :
    List DiscoveredUrl :=
  if sitemapCurrentDepth ≥ sitemapMaxDepth then []
  else if crawlMaxDepth = 0 then []
  else (site.probeSubpathSitemapsForCrawl base).map fun sitemapUrl => .html sitemapUrl.url 1 base

/-! ### The crawl -/

def crawlWithSitemapInternal (config : CrawlerConfig) (baseUrl : String) (sitemap : Option String) :
    Except CrawlError (List DiscoveredUrl) := do
  site.rejectSitemapEntryTarget baseUrl
  site.buildDiscoveryClient
  let sitemapUrl ← site.resolveSitemapUrl baseUrl sitemap
  site.parserClients
  let urls ← site.parseSitemap sitemapUrl
  let base ← (site.crates.parse baseUrl).mapError CrawlError.invalidUrl
  let relevantUrls := site.filterRelevantUrls urls (site.crates.path base)
  if relevantUrls.isEmpty then
    return site.crawlWithSubpathSitemaps base 3 0 config.maxDepth
  else site.buildDiscoveredUrlsOrLimitError config base relevantUrls

/-- `sitemap` is the explicit URL, already validated. -/
def crawlWithSitemapResolved (config : CrawlerConfig) (baseUrl : String) (sitemap : Option String) :
    Except CrawlError (List DiscoveredUrl) :=
  site.crawlWithSitemapInternal config baseUrl sitemap

end Site

end Webfang.Sitemap
