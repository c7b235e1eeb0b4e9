import Webfang.Sitemap.SitemapDiscovery

/-!
# The links of a page

`extract_links` of `infrastructure/crawler/link_extractor.rs`. A link is fetched under the URL as it
resolves and is to be found once under its canonical key, but the key is looked for among the URLs that
are kept and not among their keys. The HTML parser selects the elements: a page is what it selects.
-/
namespace Webfang.Crawler

open Library
open Webfang.Sitemap (CrawlError)

structure Anchor where
  rel : Option String
  href : String

/-- The `href`s of the `base` elements and the anchors, in document order. -/
structure Page where
  bases : List String
  anchors : List Anchor

/-- `url` with its joins, beside the normaliser. -/
structure LinkCrates extends Domain.UrlCrates where
  parseError : String → String
  join : Url → String → Option Url

/-- The author asks not to follow the link. -/
def Anchor.isNofollow (anchor : Anchor) : Bool :=
  (Text.splitWhitespace (anchor.rel.getD "")).any fun token => Text.toAsciiLowercase token == "nofollow"

namespace LinkCrates

variable (crates : LinkCrates)

/-- The first `base` of the document, where it is a URL by itself or relative to the caller's. -/
def baseOf (page : Page) (callerBase : crates.Url) : crates.Url :=
  (page.bases.head?.bind fun href =>
    (crates.parse href).orElse fun _ => crates.join callerBase href).getD callerBase

/-- The loop over the anchors. -/
def collectLinks (base : crates.Url) (links : List String) (anchor : Anchor) : List String :=
  if anchor.isNofollow then links
  else
    match crates.join base anchor.href with
    | some absoluteUrl =>
      let fetchUrl := crates.render absoluteUrl
      let dedupKey := crates.canonicalKey fetchUrl
      if dedupKey ∈ links then links else links ++ [fetchUrl]
    | none => links

def extractLinks (page : Page) (baseUrl : String) : Except CrawlError (List String) :=
  match crates.parse baseUrl with
  | none => .error (.invalidUrl (crates.parseError baseUrl))
  | some callerBase => .ok (page.anchors.foldl (crates.collectLinks (crates.baseOf page callerBase)) [])

/-! ### The followable links -/

def followed (base : crates.Url) (anchor : Anchor) : Option String :=
  if anchor.isNofollow then none else (crates.join base anchor.href).map crates.render

/-- The resolved links of the page that may be followed, in document order. -/
def followable (page : Page) (baseUrl : String) : List String :=
  match crates.parse baseUrl with
  | none => []
  | some callerBase => page.anchors.filterMap (crates.followed (crates.baseOf page callerBase))

theorem collectLinks_eq (base : crates.Url) (links : List String) (anchor : Anchor) :
    crates.collectLinks base links anchor =
      (crates.followed base anchor).elim links (KeyAmongItems.step crates.canonicalKey links) := by
  unfold collectLinks followed
  split
  next => rfl
  next =>
    cases crates.join base anchor.href with
    | none => rfl
    | some absoluteUrl => rfl

theorem foldl_collectLinks (base : crates.Url) (links : List String) (anchors : List Anchor) :
    anchors.foldl (crates.collectLinks base) links =
      (anchors.filterMap (crates.followed base)).foldl (KeyAmongItems.step crates.canonicalKey) links := by
  induction anchors generalizing links with
  | nil => rfl
  | cons anchor rest ih =>
    rw [List.foldl_cons, ih, collectLinks_eq]
    cases here : crates.followed base anchor with
    | none => rw [List.filterMap_cons_none here, Option.elim_none]
    | some link => rw [List.filterMap_cons_some here, Option.elim_some, List.foldl_cons]

/-- The links of a page are the run of the loop over its followable links. -/
theorem extractLinks_eq_ok_iff {page : Page} {baseUrl : String} {links : List String} :
    crates.extractLinks page baseUrl = .ok links ↔ (crates.parse baseUrl).isSome = true ∧
      links = KeyAmongItems.run crates.canonicalKey (crates.followable page baseUrl) := by
  unfold extractLinks followable
  cases crates.parse baseUrl with
  | none => simp
  | some callerBase =>
    dsimp only
    rw [foldl_collectLinks]
    simp [KeyAmongItems.run, eq_comm]

theorem followable_perm (page : Page) (baseUrl : String) {anchors : List Anchor}
    (perm : anchors.Perm page.anchors) :
    (crates.followable { page with anchors := anchors } baseUrl).Perm (crates.followable page baseUrl) := by
  unfold followable
  cases crates.parse baseUrl with
  | none => exact List.Perm.refl _
  | some callerBase => exact perm.filterMap _

/-- Any of the links can come first. -/
theorem exists_perm_cons {page : Page} {baseUrl link : String}
    (member : link ∈ crates.followable page baseUrl) :
    ∃ anchors, anchors.Perm page.anchors ∧
      ∃ rest, crates.followable { page with anchors := anchors } baseUrl = link :: rest := by
  unfold followable at member
  cases parsed : crates.parse baseUrl with
  | none =>
    rw [parsed] at member
    cases member
  | some callerBase =>
    rw [parsed] at member
    obtain ⟨anchor, here, leads⟩ := List.mem_filterMap.mp member
    obtain ⟨front, back, whole⟩ := List.append_of_mem here
    refine ⟨anchor :: (front ++ back), ?_,
      (front ++ back).filterMap (crates.followed (crates.baseOf page callerBase)), ?_⟩
    · rw [whole]
      exact List.perm_middle.symm
    · unfold followable
      rw [parsed]
      exact List.filterMap_cons_some leads

/-! ### One link for each key -/

/-- Of the followable links of one key the first is returned and no other, and the keys of what is returned
do not depend on the order of the anchors. -/
structure OncePerKey (page : Page) (baseUrl : String) : Prop where
  once : ∀ links, crates.extractLinks page baseUrl = .ok links →
    OneEach crates.canonicalKey (crates.followable page baseUrl) links
  unordered : ∀ anchors links other, anchors.Perm page.anchors →
    crates.extractLinks page baseUrl = .ok links →
    crates.extractLinks { page with anchors := anchors } baseUrl = .ok other →
    ∀ key, key ∈ other.map crates.canonicalKey ↔ key ∈ links.map crates.canonicalKey

theorem closed_of_perm {links other : List String}
    (closed : ∀ link ∈ links, crates.canonicalKey link ∈ links →
      crates.canonicalKey (crates.canonicalKey link) = crates.canonicalKey link) (perm : other.Perm links) :
    ∀ link ∈ other, crates.canonicalKey link ∈ other →
      crates.canonicalKey (crates.canonicalKey link) = crates.canonicalKey link :=
  fun link member spelled => closed link (perm.mem_iff.mp member) (perm.mem_iff.mp spelled)

/-- The order of the links does not matter for the keys, unless a link is the key of another one and has a
third for its own. -/
theorem keys_of_perm {links other : List String}
    (closed : ∀ link ∈ links, crates.canonicalKey link ∈ links →
      crates.canonicalKey (crates.canonicalKey link) = crates.canonicalKey link) (perm : other.Perm links)
    (key : String) : key ∈ (KeyAmongItems.run crates.canonicalKey other).map crates.canonicalKey ↔
      key ∈ (KeyAmongItems.run crates.canonicalKey links).map crates.canonicalKey := by
  rw [KeyAmongItems.keys_run (crates.closed_of_perm closed perm), KeyAmongItems.keys_run closed]
  exact (perm.map _).mem_iff

/-- Each key is returned once exactly where the first link of every key that comes again is spelled like
the key. -/
theorem extractLinks_oncePerKey_iff (page : Page) (baseUrl : String) : crates.OncePerKey page baseUrl ↔
    KeyAmongItems.Spelled crates.canonicalKey (crates.followable page baseUrl) := by
  constructor
  · intro property
    cases parsed : crates.parse baseUrl with
    | none =>
      have empty : crates.followable page baseUrl = [] := by
        unfold followable
        rw [parsed]
      rw [empty]
      exact ⟨fun _ member => absurd member List.not_mem_nil, fun front _ _ whole => by simp at whole⟩
    | some callerBase =>
      have ok (page : Page) : crates.extractLinks page baseUrl =
          .ok (KeyAmongItems.run crates.canonicalKey (crates.followable page baseUrl)) :=
        crates.extractLinks_eq_ok_iff.mpr ⟨by rw [parsed]; rfl, rfl⟩
      have one := property.once _ (ok page)
      -- a link that is spelled like a key could come first, and then has that key
      have closed : ∀ link ∈ crates.followable page baseUrl,
          crates.canonicalKey link ∈ crates.followable page baseUrl →
          crates.canonicalKey (crates.canonicalKey link) = crates.canonicalKey link := by
        intro link member spelled
        by_contra apart
        obtain ⟨anchors, perm, rest, whole⟩ := crates.exists_perm_cons spelled
        obtain ⟨first, kept, same⟩ := one.exists_key member
        have listed := (property.unordered anchors _ _ perm (ok page) (ok { page with anchors := anchors })
          (crates.canonicalKey link)).mpr (List.mem_map.mpr ⟨first, kept, same⟩)
        rw [whole] at listed
        exact KeyAmongItems.not_mem_keys apart rest listed
      exact ⟨closed, fun front link back whole first found =>
        KeyAmongItems.again_of_oneEach closed one whole found⟩
  · intro spelled
    refine ⟨fun links ok => ?_, fun anchors links other perm ok ok' key => ?_⟩
    · rw [(crates.extractLinks_eq_ok_iff.mp ok).2]
      exact KeyAmongItems.oneEach_run spelled
    · rw [(crates.extractLinks_eq_ok_iff.mp ok).2, (crates.extractLinks_eq_ok_iff.mp ok').2]
      exact crates.keys_of_perm spelled.closed (crates.followable_perm page baseUrl perm) key

end LinkCrates

/-! Two pages of one list. -/

namespace PaginatedList

/-- Links that are URLs by themselves. -/
def crates : LinkCrates where
  toUrlCrates := Domain.plainUrls
  parseError _ := "relative URL without a base"
  join _ href := Domain.PlainUrl.parse href

def page : Page :=
  ⟨[], [⟨none, "https://example.com/list?page=1"⟩, ⟨some "next", "https://example.com/list?page=2"⟩]⟩

/-- Both are returned, though they have one canonical key. -/
theorem both_returned :
    crates.extractLinks page "https://example.com/" =
      .ok ["https://example.com/list?page=1", "https://example.com/list?page=2"] ∧
    ¬ crates.OncePerKey page "https://example.com/" := by
  have returned : crates.extractLinks page "https://example.com/" =
      .ok ["https://example.com/list?page=1", "https://example.com/list?page=2"] := by decide
  refine ⟨returned, fun property => ?_⟩
  have distinct := (property.once _ returned).distinct
  revert distinct
  decide

end PaginatedList

end Webfang.Crawler
