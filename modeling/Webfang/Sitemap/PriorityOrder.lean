import Webfang.Library.FloatOrder
import Webfang.Sitemap.SitemapEvents

/-!
# The order of sitemap entries

The sorts of `dedup_and_sort_sitemap_urls` and of `apply_crawl_budget` on the priorities that a parser can
store. A NaN passes the clamp and is taken for equal to every other priority, so that the comparison is
a total preorder only where no such entry stands, by its date, between two others in the wrong order.
-/
namespace Webfang.Sitemap

open Library

/-- `f32`, with the reading of a decimal number left open. -/
def f32 (parse : String → Option Binary32) : Floats where
  F32 := Binary32
  parse := parse
  clamp := Binary32.clamp .zero .one
  half := .half
  partialCmp := Binary32.partialCmp

section Entries

variable {floats : Floats} {κ : Type} [DecidableEq κ]

def IsFirst (key : SitemapUrl floats → κ) (urls : List (SitemapUrl floats)) (entry : SitemapUrl floats) :
    Prop :=
  urls.find? (fun other => decide (key other = key entry)) = some entry

/-- The entries are those of the list without duplicates, and the result is these entries in order,
however the sort of the standard library goes about it. -/
structure Settled (key : SitemapUrl floats → κ) (urls entries result : List (SitemapUrl floats)) : Prop where
  distinct : (entries.map key).Nodup
  first : ∀ entry, entry ∈ entries ↔ IsFirst key urls entry
  preorder : TotalPreorderOn compareEntries entries
  returned : ∀ sort : SliceSort, sort.sortBy compareEntries entries = some result
  ordered : result.Pairwise fun a b => (compareEntries a b).isLE
  perm : result.Perm entries

/-- Lists that differ in the order of entries with different URLs. -/
def SameByUrl (urls other : List (SitemapUrl floats)) : Prop :=
  ∀ url, other.filter (fun entry => decide (entry.url = url)) =
    urls.filter fun entry => decide (entry.url = url)

theorem settled_iff {key : SitemapUrl floats → κ} {urls entries : List (SitemapUrl floats)}
    (distinct : (entries.map key).Nodup) (first : ∀ entry, entry ∈ entries ↔ IsFirst key urls entry) :
    Settled key urls entries (sortEntries entries) ↔ TotalPreorderOn compareEntries entries := by
  constructor
  · exact Settled.preorder
  · intro preorder
    exact ⟨distinct, first, preorder, fun sort => sort.settles preorder, preorder.pairwise_mergeSort,
      List.mergeSort_perm ..⟩

theorem isFirst_sortedDedup (urls : List (SitemapUrl floats)) (entry : SitemapUrl floats) :
    entry ∈ sortedDedup SitemapUrl.url urls ↔ IsFirst SitemapUrl.url urls entry :=
  mem_sortedDedup

/-- The sort does not see the order of the entries it is given. -/
theorem dedupAndSort_of_sameByUrl {urls other : List (SitemapUrl floats)} (same : SameByUrl urls other) :
    dedupAndSortSitemapUrls other = dedupAndSortSitemapUrls urls := by
  rw [dedupAndSortSitemapUrls, sortedDedup_congr same, dedupAndSortSitemapUrls]

namespace SitemapParser

variable (parser : SitemapParser floats)

theorem deduplicateUrls_cons (seen : List String) (url : SitemapUrl floats)
    (rest : List (SitemapUrl floats)) :
    parser.deduplicateUrls seen (url :: rest) =
      if parser.crates.canonicalKey url.url ∈ seen then parser.deduplicateUrls seen rest
      else url :: parser.deduplicateUrls (parser.crates.canonicalKey url.url :: seen) rest := rfl

theorem mem_deduplicateUrls {seen : List String} {urls : List (SitemapUrl floats)}
    {entry : SitemapUrl floats} :
    entry ∈ parser.deduplicateUrls seen urls ↔ parser.crates.canonicalKey entry.url ∉ seen ∧
      IsFirst (fun url => parser.crates.canonicalKey url.url) urls entry := by
  unfold IsFirst
  induction urls generalizing seen with
  | nil => simp [deduplicateUrls]
  | cons url rest ih =>
    rw [deduplicateUrls_cons, List.find?_cons]
    by_cases same : parser.crates.canonicalKey url.url = parser.crates.canonicalKey entry.url
    · -- the entry is this one, if its key is new
      rw [decide_eq_true same, ← same]
      split
      next held => simp [ih, ← same, held]
      next fresh => simp [ih, ← same, fresh, eq_comm]
    · have other : entry ≠ url := fun equal => same (congrArg _ (congrArg _ equal.symm))
      rw [decide_eq_false same]
      split
      next held => rw [ih]
      next fresh =>
        rw [List.mem_cons, ih, List.mem_cons, not_or, or_iff_right other, and_iff_right (Ne.symm same)]

theorem nodup_deduplicateUrls (seen : List String) (urls : List (SitemapUrl floats)) :
    ((parser.deduplicateUrls seen urls).map fun url => parser.crates.canonicalKey url.url).Nodup := by
  induction urls generalizing seen with
  | nil => exact List.nodup_nil
  | cons url rest ih =>
    rw [deduplicateUrls_cons]
    split
    next => exact ih seen
    next =>
      rw [List.map_cons, List.nodup_cons]
      refine ⟨fun again => ?_, ih _⟩
      obtain ⟨entry, member, same⟩ := List.mem_map.mp again
      exact (parser.mem_deduplicateUrls.mp member).1 (same ▸ List.mem_cons_self)

end SitemapParser

end Entries

/-! ### Priorities -/

section Priorities

variable {parse : String → Option Binary32}

/-- `priority.unwrap_or(0.5)` as a number; a NaN is none. -/
def SitemapUrl.rank (entry : SitemapUrl (f32 parse)) : Option Int :=
  Binary32.value (entry.priority.getD (.half : Binary32))

/-- No entry without a number for a priority was changed at a time between those of two others, of which
the one with the higher priority is the older. -/
def Clear {κ : Type} [DecidableEq κ] (key : SitemapUrl (f32 parse) → κ)
    (urls : List (SitemapUrl (f32 parse))) : Prop :=
  ∀ low high mid, IsFirst key urls low → IsFirst key urls high → IsFirst key urls mid →
    ¬ Clash SitemapUrl.rank SitemapUrl.lastmod low high mid

theorem preorder_iff_clear {κ : Type} [DecidableEq κ] {key : SitemapUrl (f32 parse) → κ}
    {urls entries : List (SitemapUrl (f32 parse))}
    (first : ∀ entry, entry ∈ entries ↔ IsFirst key urls entry) :
    TotalPreorderOn compareEntries entries ↔ Clear key urls := by
  have flipped : TotalPreorderOn compareEntries entries ↔
      TotalPreorderOn (patched SitemapUrl.rank SitemapUrl.lastmod) entries := totalPreorderOn_flip
  rw [flipped, totalPreorderOn_patched_iff]
  simp only [first]
  exact ⟨fun clear low high mid here there between => clear low here high there mid between,
    fun clear low here high there mid between => clear low high mid here there between⟩

/-- Both sorts do what they are for exactly where no NaN stands in the way. What the first of them
returns never depends on the order of entries with different URLs. -/
theorem sorts_settled_iff (parser : SitemapParser (f32 parse)) (urls : List (SitemapUrl (f32 parse))) :
    (Settled SitemapUrl.url urls (sortedDedup SitemapUrl.url urls) (dedupAndSortSitemapUrls urls) ∧
        (∀ other, SameByUrl urls other → dedupAndSortSitemapUrls other = dedupAndSortSitemapUrls urls) ↔
      Clear SitemapUrl.url urls) ∧ (parser.crawlBudgetEnabled = true →
      (Settled (fun url => parser.crates.canonicalKey url.url) (parser.filterParameterHeavyUrls urls)
          (parser.deduplicateUrls [] (parser.filterParameterHeavyUrls urls)) (parser.applyCrawlBudget urls) ↔
        Clear (fun url => parser.crates.canonicalKey url.url) (parser.filterParameterHeavyUrls urls))) := by
  constructor
  · have first := isFirst_sortedDedup urls
    rw [and_iff_left fun other same => dedupAndSort_of_sameByUrl same, ← preorder_iff_clear first]
    exact settled_iff (nodup_sortedDedup SitemapUrl.url urls) first
  · intro enabled
    have first (entry : SitemapUrl (f32 parse)) :
        entry ∈ parser.deduplicateUrls [] (parser.filterParameterHeavyUrls urls) ↔
          IsFirst (fun url => parser.crates.canonicalKey url.url)
            (parser.filterParameterHeavyUrls urls) entry := by
      rw [parser.mem_deduplicateUrls, and_iff_right List.not_mem_nil]
    rw [← preorder_iff_clear first, SitemapParser.applyCrawlBudget, if_pos enabled]
    exact settled_iff (parser.nodup_deduplicateUrls _ _) first

end Priorities

/-! A sitemap whose second entry has the priority `NaN`. -/

namespace NanPriority

def parsePriority (text : String) : Option Binary32 :=
  if text = "NaN" then some .nan
  else if text = "0.0" then some .zero
  else if text = "1.0" then some .one
  else none

def crate : UrlCrate where
  parse url := .ok url
  join _ reference := some reference
  scheme _ := "https"
  hostStr _ := some "a.org"
  path _ := "/"

def entry (address priority : String) : List Event :=
  [.start "url", .start "loc", .text (.ok address), .end "loc",
    .start "priority", .text (.ok priority), .end "priority", .end "url"]

def document : List Event :=
  .start "urlset" :: (entry "https://a.org/1" "0.0" ++ entry "https://a.org/2" "NaN" ++
    entry "https://a.org/3" "1.0" ++ [.end "urlset"])

def stored (address : String) (priority : Binary32) : SitemapUrl (f32 parsePriority) :=
  ⟨address, none, some priority, none⟩

def urls : List (SitemapUrl (f32 parsePriority)) :=
  [stored "https://a.org/1" .zero, stored "https://a.org/2" .nan, stored "https://a.org/3" .one]

/-- The parser stores the NaN, and the entries on both sides of it are of different priority. -/
theorem stored_unsettled :
    CoreParser.parseSitemapCore ⟨crate, "https://a.org/sitemap.xml", true, true⟩ (document.map .ok) =
      .ok (urls, false) ∧
    ¬ Settled SitemapUrl.url urls (sortedDedup SitemapUrl.url urls) (dedupAndSortSitemapUrls urls) := by
  constructor
  · rfl
  · intro settled
    have clear := (preorder_iff_clear settled.first).mp settled.preorder
    refine clear (stored "https://a.org/1" .zero) (stored "https://a.org/3" .one)
      (stored "https://a.org/2" .nan) rfl rfl rfl ⟨by decide, ⟨_, _, rfl, rfl, by decide⟩, rfl, rfl⟩

end NanPriority

end Webfang.Sitemap
