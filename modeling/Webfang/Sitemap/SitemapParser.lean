import Mathlib.Data.String.Basic
import Webfang.Domain.UrlValidation
import Webfang.Library.Dedup

/-!
# The sitemap parser

`infrastructure/crawler/sitemap_parser.rs` around the reading of one document, and the passes of
`batch_processor.rs` and `memory_manager.rs`: the entries of a sitemap without duplicates, the
children of an index, and the limits. Every fetch is a parameter, also for the children of an index,
by their position in it: what is served covers the order in which concurrent fetches see the visited
set. A URL is its serialisation.
-/
namespace Webfang.Sitemap

open Library

/-- `url`. What is read off a URL is read off its serialisation, as `parse` or `join` gave it. -/
structure UrlCrate where
  parse : String → Except String String
  join : (base reference : String) → Option String
  scheme : String → String
  hostStr : String → Option String
  path : String → String

/-- The operations on `f32` that the parser uses. -/
structure Floats where
  F32 : Type
  parse : String → Option F32
  /-- `p.clamp(0.0, 1.0)`. -/
  clamp : F32 → F32
  /-- 0.5. -/
  half : F32
  partialCmp : F32 → F32 → Option Ordering

structure SitemapUrl (floats : Floats) where
  url : String
  lastmod : Option String
  priority : Option floats.F32
  changefreq : Option String

inductive SitemapError where
  | invalidUrl (message : String)
  | httpError (status : UInt16) (message : String)
  | xmlError (message : String)
  | ioError (message : String)
  | noUrlsFound
  | invalidStructure
  | maxDepthExceeded
  | invalidScheme (scheme : String)
  | responseTooLarge (limit : Nat)
  | decompressedTooLarge (limit : Nat)
  | memoryLimitExceeded (mb : Nat)
  | sitemapNotFound (url : String)
  | invalidContentType (contentType : String)
  | decompressionError (message : String)
  | allChildrenFailed (count : Nat) (details : String)
  | wafChallenge (url provider : String)
  | ssrfLiteralRejected (message : String)
  deriving DecidableEq, Repr

def SitemapError.display : SitemapError → String
  | .invalidUrl message => s!"invalid URL: {message}"
  | .httpError status message => s!"http request failed: {status}: {message}"
  | .xmlError message => s!"XML parsing failed: {message}"
  | .ioError message => s!"IO error: {message}"
  | .noUrlsFound => "no URLs found in sitemap"
  | .invalidStructure => "invalid sitemap structure"
  | .maxDepthExceeded => "maximum recursion depth exceeded"
  | .invalidScheme scheme => s!"invalid scheme: {scheme} (only http/https allowed)"
  | .responseTooLarge limit => s!"response too large: exceeds {limit} bytes"
  | .decompressedTooLarge limit => s!"decompressed data too large: exceeds {limit} bytes"
  | .memoryLimitExceeded mb => s!"sitemap memory limit exceeded: {mb} MB"
  | .sitemapNotFound url => s!"no sitemap found at {url}"
  | .invalidContentType contentType => s!"invalid content type: expected XML, got {contentType}"
  | .decompressionError message => s!"decompression failed: {message}"
  | .allChildrenFailed count details => s!"all {count} child sitemaps failed: {details}"
  | .wafChallenge url provider => s!"waf challenge detected at {url}: {provider}"
  | .ssrfLiteralRejected message => s!"SSRF literal rejected: {message}"

/-- Of the configuration what these passes read. `serve` gives the entries of the document that a
fetch reads, and whether it is an index, for every call of the parser and every position below it. -/
structure SitemapParser (floats : Floats) where
  maxDepth : Nat
  memoryLimitMb : Nat
  crawlBudgetEnabled : Bool
  maxParamsThreshold : Nat
  queryPairs : String → Nat
  crates : Domain.UrlCrates
  serve : (call : Nat) → (position : List Nat) → (url : String) →
    Except SitemapError (List (SitemapUrl floats) × Bool)

variable {floats : Floats}

/-! ### Order and duplicates -/

/-- By priority and then by date, both descending. -/
def compareEntries (a b : SitemapUrl floats) : Ordering :=
  let priA := a.priority.getD floats.half
  let priB := b.priority.getD floats.half
  ((floats.partialCmp priB priA).getD .eq).then (compare b.lastmod a.lastmod)

def sortEntries (urls : List (SitemapUrl floats)) : List (SitemapUrl floats) :=
  urls.mergeSort fun a b => compareEntries a b != .gt

def dedupAndSortSitemapUrls (urls : List (SitemapUrl floats)) : List (SitemapUrl floats) :=
  sortEntries (sortedDedup SitemapUrl.url urls)

namespace SitemapParser

variable (parser : SitemapParser floats)

/-! ### Limits -/

/-- The estimate in MB where it is over the budget. -/
def ensureWithinBudget (urls : List (SitemapUrl floats)) : Option Nat :=
  let estimatedMb := urls.length * 2000 / (1024 * 1024)
  if parser.memoryLimitMb ≤ estimatedMb then some estimatedMb else none

def filterParameterHeavyUrls (urls : List (SitemapUrl floats)) : List (SitemapUrl floats) :=
  urls.filter fun url => parser.queryPairs url.url ≤ parser.maxParamsThreshold

/-- Of the URLs with one normal form the first. -/
def deduplicateUrls (seen : List String) : List (SitemapUrl floats) → List (SitemapUrl floats)
  | [] => []
  | url :: rest =>
    let normalized := parser.crates.canonicalKey url.url
    if normalized ∈ seen then deduplicateUrls seen rest
    else url :: deduplicateUrls (normalized :: seen) rest

def applyCrawlBudget (urls : List (SitemapUrl floats)) : List (SitemapUrl floats) :=
  if parser.crawlBudgetEnabled then
    sortEntries (parser.deduplicateUrls [] (parser.filterParameterHeavyUrls urls))
  else urls

/-! ### The children of an index -/

/-- What the children of an index came to, in their order. -/
abbrev Children (floats : Floats) := List (String × Except SitemapError (List (SitemapUrl floats)))

/-- The URLs of the children so far and the children that failed; the budget stops the rest. -/
def collectChildren (allUrls : List (SitemapUrl floats)) (failures : List (String × SitemapError)) :
    Children floats → Except SitemapError (List (SitemapUrl floats) × List (String × SitemapError))
  | [] => .ok (allUrls, failures)
  | (url, .error e) :: rest => collectChildren allUrls (failures ++ [(url, e)]) rest
  | (_, .ok urls) :: rest =>
    match parser.ensureWithinBudget (allUrls ++ urls) with
    | some mb => .error (.memoryLimitExceeded mb)
    | none => collectChildren (allUrls ++ urls) failures rest

/-- A challenge or a refused address in one child ends the whole index. -/
def aborts : String × SitemapError → Option SitemapError
  | (_, .wafChallenge url provider) => some (.wafChallenge url provider)
  | (_, .ssrfLiteralRejected message) => some (.ssrfLiteralRejected message)
  | _ => none

def parseSitemapIndex (children : Children floats) : Except SitemapError (List (SitemapUrl floats)) :=
  match parser.collectChildren [] [] children with
  | .error e => .error e
  | .ok (allUrls, failures) =>
    match failures.findSome? aborts with
    | some e => .error e
    | none =>
      if !allUrls.isEmpty then .ok (dedupAndSortSitemapUrls allUrls)
      else
        let realFailures := failures.filter fun failure => failure.2 != .noUrlsFound
        if realFailures.isEmpty then .error .noUrlsFound
        else
          let messages := realFailures.map fun (url, e) => s!"{url}: {e.display}"
          .error (.allChildrenFailed realFailures.length ("; ".intercalate messages))

/-! ### One sitemap -/

def parseWithDepth (call : Nat) :
    (depth : Nat) → (position : List Nat) → (url : String) → Except SitemapError (List (SitemapUrl floats))
  | 0, _, _ => .error .maxDepthExceeded
  | depth + 1, position, url =>
    match parser.serve call position url with
    | .error e => .error e
    | .ok (urls, isIndex) =>
      if urls.isEmpty then .error .noUrlsFound
      else
        let urls := dedupAndSortSitemapUrls urls
        match parser.ensureWithinBudget urls with
        | some mb =>
          .error (.httpError 0 s!"memory management failed: memory limit exceeded: {mb} MB")
        | none =>
          if isIndex then
            parser.parseSitemapIndex (urls.mapIdx fun i child =>
              (child.url, parseWithDepth call depth (position ++ [i]) child.url))
          else .ok (parser.applyCrawlBudget urls)

def parseFromUrl (call : Nat) (url : String) : Except SitemapError (List (SitemapUrl floats)) :=
  parser.parseWithDepth call parser.maxDepth [] url

/-! ### No URL twice -/

theorem nodup_of_perm {urls other : List (SitemapUrl floats)} (perm : urls.Perm other)
    (nodup : (other.map SitemapUrl.url).Nodup) : (urls.map SitemapUrl.url).Nodup :=
  (perm.map SitemapUrl.url).nodup_iff.mpr nodup

theorem nodup_dedupAndSort (urls : List (SitemapUrl floats)) :
    ((dedupAndSortSitemapUrls urls).map SitemapUrl.url).Nodup :=
  nodup_of_perm (List.mergeSort_perm _ _) (nodup_sortedDedup SitemapUrl.url urls)

theorem deduplicateUrls_sublist (seen : List String) (urls : List (SitemapUrl floats)) :
    List.Sublist (parser.deduplicateUrls seen urls) urls := by
  induction urls generalizing seen with
  | nil => exact List.Sublist.slnil
  | cons url rest ih =>
    rw [deduplicateUrls]
    split
    · exact (ih seen).cons url
    · exact (ih _).cons_cons url

theorem nodup_applyCrawlBudget {urls : List (SitemapUrl floats)} (nodup : (urls.map SitemapUrl.url).Nodup) :
    ((parser.applyCrawlBudget urls).map SitemapUrl.url).Nodup := by
  rw [applyCrawlBudget]
  split
  · have kept : List.Sublist (parser.deduplicateUrls [] (parser.filterParameterHeavyUrls urls)) urls :=
      (parser.deduplicateUrls_sublist [] _).trans List.filter_sublist
    exact nodup_of_perm (List.mergeSort_perm _ _) (nodup.sublist (kept.map SitemapUrl.url))
  · exact nodup

theorem nodup_parseSitemapIndex {children : Children floats} {urls : List (SitemapUrl floats)}
    (ok : parser.parseSitemapIndex children = .ok urls) : (urls.map SitemapUrl.url).Nodup := by
  rw [parseSitemapIndex] at ok
  split at ok
  next => cases ok
  next =>
    split at ok
    next => cases ok
    next =>
      split at ok
      next =>
        cases ok
        exact nodup_dedupAndSort _
      next =>
        dsimp only at ok
        split at ok <;> cases ok

theorem nodup_parseFromUrl {call : Nat} {url : String} {urls : List (SitemapUrl floats)}
    (ok : parser.parseFromUrl call url = .ok urls) : (urls.map SitemapUrl.url).Nodup := by
  rw [parseFromUrl] at ok
  cases depth : parser.maxDepth with
  | zero =>
    rw [depth] at ok
    cases ok
  | succ depth =>
    rw [‹parser.maxDepth = _›, parseWithDepth] at ok
    split at ok
    next => cases ok
    next =>
      split at ok
      next => cases ok
      next =>
        dsimp only at ok
        split at ok
        next => cases ok
        next =>
          split at ok
          next => exact parser.nodup_parseSitemapIndex ok
          next =>
            cases ok
            exact parser.nodup_applyCrawlBudget (nodup_dedupAndSort _)

end SitemapParser

/-- For concrete runs. -/
def wholeNumbers : Floats where
  F32 := Nat
  parse := String.toNat?
  clamp := min 1
  half := 0
  partialCmp a b := some (compare a b)

end Webfang.Sitemap
