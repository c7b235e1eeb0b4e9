import Webfang.Library.NestedNames
import Webfang.Sitemap.SitemapEvents

/-!
# Internal links

`is_internal_link` and `normalize_seed_host` of `domain/url_validation.rs`. The seed loses a leading
`www.` before the comparison and the link does not.
-/
namespace Webfang.Domain

open Library

/-- The `url` crate, and `str::to_lowercase`, which may also be asked about a seed that is no URL. -/
structure HostCrates where
  Url : Type
  parse : String → Option Url
  hostStr : Url → Option String
  toLowercase : String → String
  lower_behind : ∀ text rest, toLowercase text = "www." ++ rest → toLowercase rest = rest

namespace HostCrates

variable (crates : HostCrates)

def extractDomain (url : String) : Option String := (crates.parse url).bind crates.hostStr

def stripWwwPrefix (host : String) : String :=
  match Text.stripPrefix (crates.toLowercase host) "www." with
  | some stripped => if stripped.isEmpty then host else stripped
  | none => host

/-- A bare host, without the path and the port behind it. -/
def bareHost (seed : String) : String :=
  let withoutPath := seed.toList.takeWhile (· ≠ '/')
  String.ofList (withoutPath.takeWhile (· ≠ ':'))

def normalizeSeedHost (seed : String) : String :=
  match crates.extractDomain seed with
  | some host => crates.stripWwwPrefix host
  | none => crates.stripWwwPrefix (bareHost seed)

def isInternalLink (url seedDomain : String) : Bool :=
  let seedHost := crates.toLowercase (crates.normalizeSeedHost seedDomain)
  match crates.extractDomain url with
  | none => false
  | some host =>
    let host := crates.toLowercase host
    host == seedHost || (Text.stripSuffix host ("." ++ seedHost)).isSome ||
      (Text.stripSuffix seedHost ("." ++ host)).isSome

def seedHost (seed : String) : String := (crates.extractDomain seed).getD (bareHost seed)

/-! ### Variants of a link and of a seed -/

/-- The hosts differ in their letter case at most. A port is no part of a host. -/
def SameLinkHost (link link' : String) : Prop :=
  (crates.extractDomain link).map crates.toLowercase = (crates.extractDomain link').map crates.toLowercase

def SameSeedHost (seed seed' : String) : Prop :=
  crates.toLowercase (crates.seedHost seed) = crates.toLowercase (crates.seedHost seed')

/-- The host of the second link is that of the first with a `www.` in front. -/
def WwwLink (plain www : String) : Prop :=
  ∃ host wwwHost, crates.extractDomain plain = some host ∧ crates.extractDomain www = some wwwHost ∧
    crates.toLowercase wwwHost = "www." ++ crates.toLowercase host

def WwwSeed (plain www : String) : Prop :=
  crates.toLowercase (crates.seedHost www) = "www." ++ crates.toLowercase (crates.seedHost plain)

/-! ### The host of a seed -/

/-- A lower-case host without its `www.`, unless nothing stands behind it. -/
def withoutWww (host : String) : String :=
  match Text.stripPrefix host "www." with
  | some stripped => if stripped.isEmpty then host else stripped
  | none => host

/-- Another `www.` in front of the host is not taken as one. -/
def KeepsWww (host : String) : Prop := host = "" ∨ ∃ rest, rest ≠ "" ∧ host = "www." ++ rest

variable {crates}

theorem normalizeSeedHost_eq (seed : String) :
    crates.normalizeSeedHost seed = crates.stripWwwPrefix (crates.seedHost seed) := by
  unfold normalizeSeedHost seedHost
  cases crates.extractDomain seed <;> rfl

theorem toLowercase_stripWwwPrefix (host : String) :
    crates.toLowercase (crates.stripWwwPrefix host) = withoutWww (crates.toLowercase host) := by
  unfold stripWwwPrefix withoutWww
  cases found : Text.stripPrefix (crates.toLowercase host) "www." with
  | none => rfl
  | some rest =>
    dsimp only
    split
    · rfl
    · exact crates.lower_behind host rest (Text.stripPrefix_eq_some_iff.mp found)

theorem withoutWww_www {rest : String} (behind : rest ≠ "") : withoutWww ("www." ++ rest) = rest := by
  rw [withoutWww, Text.stripPrefix_eq_some_iff.mpr rfl]
  simp [behind]

theorem withoutWww_of_keeps {host : String} (keeps : KeepsWww host) :
    withoutWww ("www." ++ host) = "www." ++ withoutWww host := by
  rcases keeps with rfl | ⟨rest, behind, rfl⟩
  · decide
  · rw [withoutWww_www (by simp), withoutWww_www behind]

theorem withoutWww_of_not_keeps {host : String} (takes : ¬ KeepsWww host) :
    withoutWww ("www." ++ host) = withoutWww host := by
  have some_host : host ≠ "" := fun empty => takes (.inl empty)
  rw [withoutWww_www some_host, withoutWww]
  cases found : Text.stripPrefix host "www." with
  | none => rfl
  | some rest =>
    have whole := Text.stripPrefix_eq_some_iff.mp found
    have empty : rest = "" := by
      by_contra behind
      exact takes (.inr ⟨rest, behind, whole⟩)
    simp [empty]

/-! ### The verdict -/

theorem stripSuffix_isSome_iff {text zone : String} :
    (Text.stripSuffix text ("." ++ zone)).isSome = true ↔ Under '.' zone.toList text.toList := by
  have dotted : ("." ++ zone).toList = '.' :: zone.toList := by simp
  unfold Text.stripSuffix Under
  rw [dotted, ← List.isSuffixOf_iff_suffix]
  split <;> simp_all

theorem toList_www (host : String) : ("www." ++ host).toList = "www".toList ++ '.' :: host.toList := by
  simp

theorem www_free : '.' ∉ "www".toList := by decide

theorem isInternalLink_iff (link seed : String) :
    crates.isInternalLink link seed = true ↔ ∃ host, crates.extractDomain link = some host ∧
      Nested '.' (crates.toLowercase host).toList
        (withoutWww (crates.toLowercase (crates.seedHost seed))).toList := by
  unfold isInternalLink
  rw [normalizeSeedHost_eq, toLowercase_stripWwwPrefix]
  cases crates.extractDomain link with
  | none => simp
  | some host => simp [Nested, stripSuffix_isSome_iff, String.toList_inj, or_assoc]

def StraysFrom (zone name : String) : Prop := Strays '.' "www".toList zone.toList name.toList

/-- A `www.` in front of the link's host makes a difference where the seed strays from the link. -/
theorem isInternalLink_www_link {plain www : String} (variant : crates.WwwLink plain www) (seed : String) :
    crates.isInternalLink plain seed = crates.isInternalLink www seed ↔
      ∀ host, crates.extractDomain plain = some host → ¬ StraysFrom (crates.toLowercase host)
        (withoutWww (crates.toLowercase (crates.seedHost seed))) := by
  rcases variant with ⟨host, wwwHost, plain_host, www_host, prefixed⟩
  rw [Bool.eq_iff_iff, isInternalLink_iff, isInternalLink_iff, plain_host, www_host]
  simp only [Option.some.injEq, exists_eq_left', forall_eq']
  rw [prefixed, toList_www]
  exact Nested.label_iff www_free

/-- A `www.` in front of the seed's host makes a difference where it is kept and the link strays from
the seed. -/
theorem isInternalLink_www_seed {plain www : String} (variant : crates.WwwSeed plain www) (link : String) :
    crates.isInternalLink link plain = crates.isInternalLink link www ↔
      (KeepsWww (crates.toLowercase (crates.seedHost plain)) →
        ∀ host, crates.extractDomain link = some host →
          ¬ StraysFrom (withoutWww (crates.toLowercase (crates.seedHost plain)))
            (crates.toLowercase host)) := by
  rw [Bool.eq_iff_iff, isInternalLink_iff, isInternalLink_iff, show crates.toLowercase _ = _ from variant]
  by_cases keeps : KeepsWww (crates.toLowercase (crates.seedHost plain))
  · rw [withoutWww_of_keeps keeps, toList_www]
    cases crates.extractDomain link with
    | none => simp
    | some host =>
      simp only [Option.some.injEq, exists_eq_left', forall_eq', keeps, forall_const]
      exact Nested.label_iff_right www_free
  · rw [withoutWww_of_not_keeps keeps]
    simp [keeps]

theorem bareHost_append {host behind : String} (plain : ∀ c ∈ host.toList, c ≠ '/' ∧ c ≠ ':')
    (ended : ∀ c ∈ behind.toList.head?, c = '/' ∨ c = ':') : bareHost (host ++ behind) = host := by
  have inPath : ∀ c ∈ host.toList, decide (c ≠ '/') = true := fun c member => by simp [plain c member]
  have inHost : ∀ c ∈ host.toList, decide (c ≠ ':') = true := fun c member => by simp [plain c member]
  unfold bareHost
  dsimp only
  rw [String.toList_append, List.takeWhile_append_of_pos inPath, List.takeWhile_append_of_pos inHost]
  cases shape : behind.toList with
  | nil => simp
  | cons c rest =>
    rw [shape] at ended
    rcases ended c rfl with rfl | rfl <;> simp

/-- The verdict does not depend on ports and letter case. It depends on a leading `www.` of the link
where the seed strays from the link, and on one of the seed where it is kept and the link strays from
the seed. -/
theorem isInternalLink_variants (crates : HostCrates) :
    (∀ link link' seed, crates.SameLinkHost link link' →
      crates.isInternalLink link seed = crates.isInternalLink link' seed) ∧
    (∀ link seed seed', crates.SameSeedHost seed seed' →
      crates.isInternalLink link seed = crates.isInternalLink link seed') ∧
    (∀ host behind : String, (∀ c ∈ host.toList, c ≠ '/' ∧ c ≠ ':') →
      (∀ c ∈ behind.toList.head?, c = '/' ∨ c = ':') → crates.extractDomain host = none →
      crates.extractDomain (host ++ behind) = none → crates.SameSeedHost host (host ++ behind)) ∧
    (∀ plain www seed, crates.WwwLink plain www →
      (crates.isInternalLink plain seed = crates.isInternalLink www seed ↔
        ∀ host, crates.extractDomain plain = some host → ¬ StraysFrom (crates.toLowercase host)
          (withoutWww (crates.toLowercase (crates.seedHost seed))))) ∧
    ∀ link plain www, crates.WwwSeed plain www →
      (crates.isInternalLink link plain = crates.isInternalLink link www ↔
        (KeepsWww (crates.toLowercase (crates.seedHost plain)) →
          ∀ host, crates.extractDomain link = some host →
            ¬ StraysFrom (withoutWww (crates.toLowercase (crates.seedHost plain)))
              (crates.toLowercase host))) := by
  refine ⟨fun link link' seed same => ?_, fun link seed seed' same => ?_,
    fun host behind plain ended bare bare' => ?_, fun plain www seed variant =>
    isInternalLink_www_link variant seed, fun link plain www variant => isInternalLink_www_seed variant link⟩
  · unfold SameLinkHost at same
    rw [Bool.eq_iff_iff, isInternalLink_iff, isInternalLink_iff]
    cases host : crates.extractDomain link with
    | none =>
      rw [host, Option.map_none, eq_comm, Option.map_eq_none_iff] at same
      rw [same]
    | some name =>
      rw [host, Option.map_some, eq_comm, Option.map_eq_some_iff] at same
      rcases same with ⟨name', host', lower⟩
      simp [host', lower]
  · rw [Bool.eq_iff_iff, isInternalLink_iff, isInternalLink_iff, show crates.toLowercase _ = _ from same]
  · rw [SameSeedHost, seedHost, seedHost, bare, bare', Option.getD_none, Option.getD_none,
      bareHost_append plain ended]
    have alone := @bareHost_append host "" plain (by simp)
    rw [String.append_empty] at alone
    rw [alone]

/-! ### The sitemap reader -/

theorem toAsciiLowercase_behind {text rest : String} (lower : Text.toAsciiLowercase text = "www." ++ rest) :
    Text.toAsciiLowercase rest = rest := by
  have chars : text.toList.map Char.toLower = "www.".toList ++ rest.toList := by
    rw [← String.toList_append, ← lower, Text.toAsciiLowercase, String.toList_ofList]
  -- each character behind the prefix is a lowered one
  have fixed : rest.toList.map Char.toLower = rest.toList := by
    conv_rhs => rw [← List.map_id rest.toList]
    refine List.map_congr_left fun c member => ?_
    have lowered : c ∈ text.toList.map Char.toLower := by
      rw [chars]
      exact List.mem_append_right _ member
    rcases List.mem_map.mp lowered with ⟨upper, -, rfl⟩
    exact toLower_toLower upper
  rw [Text.toAsciiLowercase, fixed, String.ofList_toList]

/-- The crate as the sitemap reader sees it, where all hosts are ASCII. -/
def ofSitemap (crate : Sitemap.UrlCrate) : HostCrates where
  Url := String
  parse url := (crate.parse url).toOption
  hostStr := crate.hostStr
  toLowercase := Text.toAsciiLowercase
  lower_behind _ _ := toAsciiLowercase_behind

theorem ofSitemap_extractDomain (crate : Sitemap.UrlCrate) (url : String) :
    (ofSitemap crate).extractDomain url = crate.extractDomain url := by
  have parsed : (ofSitemap crate).parse url = (crate.parse url).toOption := rfl
  unfold extractDomain Sitemap.UrlCrate.extractDomain
  rw [parsed]
  cases crate.parse url with
  | error e => rfl
  | ok found => rfl

theorem ofSitemap_normalizeSeedHost (crate : Sitemap.UrlCrate) (seed : String) :
    (ofSitemap crate).normalizeSeedHost seed = crate.normalizeSeedHost seed := by
  unfold normalizeSeedHost Sitemap.UrlCrate.normalizeSeedHost
  have strip : (ofSitemap crate).stripWwwPrefix = Sitemap.stripWwwPrefix := rfl
  rw [ofSitemap_extractDomain, strip]
  cases crate.extractDomain seed with
  | none => rfl
  | some host => rfl

theorem ofSitemap_isInternalLink (crate : Sitemap.UrlCrate) (url seedDomain : String) :
    (ofSitemap crate).isInternalLink url seedDomain = crate.isInternalLink url seedDomain := by
  unfold isInternalLink Sitemap.UrlCrate.isInternalLink
  rw [ofSitemap_extractDomain, ofSitemap_normalizeSeedHost]
  cases crate.extractDomain url with
  | none => rfl
  | some host => rfl

/-! The crates on plain URLs. -/

namespace InternalRuns

def plain : HostCrates where
  Url := String
  parse url := (PlainUrl.splitScheme url.toList).map fun (_, rest) =>
    String.ofList ((rest.takeWhile fun c => c ≠ '/' ∧ c ≠ ':').map Char.toLower)
  hostStr := some
  toLowercase := Text.toAsciiLowercase
  lower_behind _ _ := toAsciiLowercase_behind

end InternalRuns

open InternalRuns in
/-- The page of `example.com` is internal to its blog, and not with a `www.` in front; the blog is
internal to `www.example.com`, and not to `www.www.example.com`. -/
theorem www_changes_verdict :
    (plain.WwwLink "https://example.com/page" "https://www.example.com/page" ∧
      plain.isInternalLink "https://example.com/page" "blog.example.com" = true ∧
      plain.isInternalLink "https://www.example.com/page" "blog.example.com" = false) ∧
    plain.WwwSeed "www.example.com" "www.www.example.com" ∧
      plain.isInternalLink "https://blog.example.com/post" "www.example.com" = true ∧
      plain.isInternalLink "https://blog.example.com/post" "www.www.example.com" = false := by
  refine ⟨⟨⟨"example.com", "www.example.com", ?_⟩, ?_⟩, show _ = _ from ?_, ?_⟩ <;> decide

open InternalRuns in
/-- The pages of `gnu.org` are internal to it with and without `www.`. -/
theorem www_keeps_verdict :
    plain.isInternalLink "https://gnu.org/page" "gnu.org" =
      plain.isInternalLink "https://www.gnu.org/page" "gnu.org" := by
  have variant : plain.WwwLink "https://gnu.org/page" "https://www.gnu.org/page" :=
    ⟨"gnu.org", "www.gnu.org", by decide⟩
  refine ((isInternalLink_variants plain).2.2.2.1 _ _ "gnu.org" variant).mpr ?_
  intro host found strays
  have here : host = "gnu.org" := by
    have known : plain.extractDomain "https://gnu.org/page" = some "gnu.org" := by decide
    rw [known] at found
    exact (Option.some.inj found).symm
  subst here
  -- the seed is as long as the link's host
  have longer := strays.under.length_lt
  exact absurd longer (by decide)

end HostCrates

end Webfang.Domain
