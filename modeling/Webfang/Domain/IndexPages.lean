import Webfang.Domain.UrlValidation

/-!
# Index pages

What `collapse_index_path` makes of a normalised URL whose path ends with an index page, and when a
directory and its index page have one normal form.
-/
namespace Webfang.Domain

open Library

/-- What the `url` crate promises of its http URLs: a URL is written as its path between what stands
before and after it, and a directory of the path in lower case can be set as the path. -/
structure UrlParts (crates : UrlCrates) where
  scheme : crates.Url → String
  before : crates.Url → String
  after : crates.Url → String
  render_eq : ∀ url, crates.render url = before url ++ crates.path url ++ after url
  setPath_eq : ∀ url parent rest, scheme url = "http" ∨ scheme url = "https" →
    Text.toAsciiLowercase (crates.path url) = parent ++ "/" ++ rest →
    crates.path (crates.setPath url (parent ++ "/")) = parent ++ "/" ∧
      before (crates.setPath url (parent ++ "/")) = before url ∧
      after (crates.setPath url (parent ++ "/")) = after url

/-- The path has an index page as its last segment, in any letter case. -/
def IndexPage (path parent : String) : Prop :=
  ∃ name, path = parent ++ "/" ++ name ∧
    (Text.toAsciiLowercase name = "index.html" ∨ Text.toAsciiLowercase name = "index.htm")

/-- The text without its ASCII upper-case letters. -/
def NoUpper (text : String) : Prop := ∀ c ∈ text.toList, c.isUpper = false

namespace UrlCrates

/-- What the collapse is applied to. -/
def normalized (crates : UrlCrates) (url : String) (config : NormalizeConfig) : String :=
  (crates.normalize url {
    stripHash := true
    removeTrailingSlash := false
    removeQueryParameters := if config.queryPolicy = .none then .none else .all
    sortQueryParameters := true
    stripWww := config.stripWww
    forceHttps := false }).getD url

variable {crates : UrlCrates} {url path parent : String} {parsed : crates.Url}

theorem normalizeUrl_eq (config : NormalizeConfig) (absolute : Text.contains url "://" = true) :
    crates.normalizeUrl url config = crates.collapseIndexPath (crates.normalized url config) := by
  have relative : ¬ (!Text.contains url "://") = true := by simp [absolute]
  unfold normalizeUrl normalized
  rw [if_neg relative]
  cases config.queryPolicy with
  | none => simp
  | all => simp
  | list => simp

/-! ### The last segment -/

theorem toAsciiLowercase_eq_self_iff (text : String) : Text.toAsciiLowercase text = text ↔ NoUpper text := by
  rw [Text.toAsciiLowercase, ← String.toList_inj, String.toList_ofList]
  exact map_toLower_eq_self_iff text.toList

/-- The lower-case path ends with a name where the path ends with one that is lowered to it. -/
theorem toAsciiLowercase_eq_append_iff {low name : String} :
    Text.toAsciiLowercase path = low ++ ("/" ++ name) ↔
      ∃ parent last, path = parent ++ "/" ++ last ∧ Text.toAsciiLowercase parent = low ∧
        Text.toAsciiLowercase last = name := by
  constructor
  · intro whole
    rw [Text.toAsciiLowercase, ← String.toList_inj, String.toList_ofList, String.toList_append,
      List.map_eq_append_iff] at whole
    rcases whole with ⟨front, back, path_eq, front_low, back_low⟩
    have segment : ("/" ++ name).toList = '/' :: name.toList := by simp
    rw [segment, List.map_eq_cons_iff] at back_low
    rcases back_low with ⟨c, last, rfl, slash, last_low⟩
    rw [(toLower_eq_iff (by decide)).mp slash] at path_eq
    refine ⟨String.ofList front, String.ofList last, ?_, ?_, ?_⟩
    · rw [← String.toList_inj]
      simpa using path_eq
    · rw [Text.toAsciiLowercase, String.toList_ofList, front_low, String.ofList_toList]
    · rw [Text.toAsciiLowercase, String.toList_ofList, last_low, String.ofList_toList]
  · rintro ⟨parent, last, rfl, rfl, rfl⟩
    rw [Text.toAsciiLowercase_append, Text.toAsciiLowercase_append, String.append_assoc]
    rfl

/-- The directory of an index page, in lower case. -/
def indexParent (path : String) : Option String :=
  (Text.stripSuffix (Text.toAsciiLowercase path) "/index.html").orElse fun _ =>
    Text.stripSuffix (Text.toAsciiLowercase path) "/index.htm"

theorem indexParent_eq_some (page : IndexPage path parent) :
    indexParent path = some (Text.toAsciiLowercase parent) := by
  rcases page with ⟨name, rfl, html | htm⟩
  · have ends : Text.stripSuffix (Text.toAsciiLowercase (parent ++ "/" ++ name)) ("/" ++ "index.html") =
        some (Text.toAsciiLowercase parent) :=
      Text.stripSuffix_eq_some_iff.mpr (toAsciiLowercase_eq_append_iff.mpr ⟨parent, name, rfl, rfl, html⟩)
    rw [indexParent, show "/index.html" = "/" ++ "index.html" from rfl, ends]
    rfl
  · have ends : Text.stripSuffix (Text.toAsciiLowercase (parent ++ "/" ++ name)) ("/" ++ "index.htm") =
        some (Text.toAsciiLowercase parent) :=
      Text.stripSuffix_eq_some_iff.mpr (toAsciiLowercase_eq_append_iff.mpr ⟨parent, name, rfl, rfl, htm⟩)
    have other : Text.stripSuffix (Text.toAsciiLowercase (parent ++ "/" ++ name)) "/index.html" = none := by
      rw [Option.eq_none_iff_forall_not_mem]
      intro rest found
      have whole := Text.stripSuffix_eq_some_iff.mp found
      rw [Text.stripSuffix_eq_some_iff.mp ends, ← String.toList_inj] at whole
      -- the last characters differ
      have last := congrArg List.getLast? whole
      simp at last
    rw [indexParent, other, show "/index.htm" = "/" ++ "index.htm" from rfl, ends]
    rfl

theorem indexParent_eq_none (none : ∀ parent, ¬ IndexPage path parent) : indexParent path = .none := by
  rw [Option.eq_none_iff_forall_not_mem]
  intro low found
  have ends : Text.toAsciiLowercase path = low ++ ("/" ++ "index.html") ∨
      Text.toAsciiLowercase path = low ++ ("/" ++ "index.htm") := by
    unfold indexParent at found
    cases html : Text.stripSuffix (Text.toAsciiLowercase path) "/index.html" with
    | some rest =>
      rw [html, Option.orElse_some, Option.mem_some] at found
      subst found
      exact .inl (Text.stripSuffix_eq_some_iff.mp html)
    | none =>
      rw [html, Option.orElse_none, Option.mem_def] at found
      exact .inr (Text.stripSuffix_eq_some_iff.mp found)
  rcases ends with html | htm
  · rcases toAsciiLowercase_eq_append_iff.mp html with ⟨parent, last, whole, -, name⟩
    exact none parent ⟨last, whole, .inl name⟩
  · rcases toAsciiLowercase_eq_append_iff.mp htm with ⟨parent, last, whole, -, name⟩
    exact none parent ⟨last, whole, .inr name⟩

/-! ### The collapse -/

theorem collapseIndexPath_page (known : crates.parse url = some parsed)
    (page : IndexPage (crates.path parsed) parent) :
    crates.collapseIndexPath url =
      let collapsed := crates.setPath parsed (Text.toAsciiLowercase parent ++ "/")
      if crates.path collapsed = "/" then Text.dropLastChar (crates.render collapsed)
      else crates.render collapsed := by
  have found := indexParent_eq_some page
  unfold indexParent at found
  unfold collapseIndexPath
  rw [known]
  dsimp only
  rw [found]

theorem collapseIndexPath_other (known : crates.parse url = some parsed)
    (other : ∀ parent, ¬ IndexPage (crates.path parsed) parent) : crates.collapseIndexPath url = url := by
  have found := indexParent_eq_none other
  unfold indexParent at found
  unfold collapseIndexPath
  rw [known]
  dsimp only
  rw [found]

theorem not_indexPage_directory (parent other : String) : ¬ IndexPage (parent ++ "/") other := by
  rintro ⟨name, whole, index⟩
  have low := congrArg (fun text => (Text.toAsciiLowercase text).toList.getLast?) whole
  rcases index with html | htm
  · simp only [Text.toAsciiLowercase_append, html] at low
    simp [Text.toAsciiLowercase] at low
  · simp only [Text.toAsciiLowercase_append, htm] at low
    simp [Text.toAsciiLowercase] at low

end UrlCrates

namespace UrlParts

variable {crates : UrlCrates} (parts : UrlParts crates) {url parent : String} {parsed : crates.Url}

def Http (parsed : crates.Url) : Prop := parts.scheme parsed = "http" ∨ parts.scheme parsed = "https"

/-- The text of a URL with the directory as its path. The bare root is written without its slash. -/
def directoryText (parsed : crates.Url) (parent : String) : String :=
  if parent = "" ∧ parts.after parsed = "" then parts.before parsed
  else parts.before parsed ++ parent ++ "/" ++ parts.after parsed

/-- The collapse takes an index page off the path, and nothing else. -/
structure OnlyIndexCollapsed (parsed : crates.Url) (url result : String) : Prop where
  collapsed : ∀ parent, IndexPage (crates.path parsed) parent → result = parts.directoryText parsed parent
  other : (∀ parent, ¬ IndexPage (crates.path parsed) parent) → result = url

/-- The directory of an index page has no upper-case letter, and the root's has no query. -/
def CollapsesCleanly (parsed : crates.Url) : Prop :=
  ∀ parent, IndexPage (crates.path parsed) parent →
    NoUpper parent ∧ (parent = "" → parts.after parsed = "")

theorem collapse_page (known : crates.parse url = some parsed) (http : parts.Http parsed)
    (page : IndexPage (crates.path parsed) parent) :
    crates.collapseIndexPath url =
      if parent = "" then Text.dropLastChar (parts.before parsed ++ "/" ++ parts.after parsed)
      else parts.before parsed ++ Text.toAsciiLowercase parent ++ "/" ++ parts.after parsed := by
  rw [UrlCrates.collapseIndexPath_page known page]
  rcases page with ⟨name, whole, -⟩
  have low : Text.toAsciiLowercase (crates.path parsed) =
      Text.toAsciiLowercase parent ++ "/" ++ Text.toAsciiLowercase name := by
    rw [whole, Text.toAsciiLowercase_append, Text.toAsciiLowercase_append]
    rfl
  rcases parts.setPath_eq parsed _ _ http low with ⟨path, before, after⟩
  dsimp only
  rw [parts.render_eq, path, before, after]
  by_cases root : parent = ""
  · rw [if_pos root, root]
    rfl
  · have nested : ¬ Text.toAsciiLowercase parent ++ "/" = "/" := by
      intro same
      have lengths := congrArg (fun text => text.toList.length) same
      simp [Text.toAsciiLowercase] at lengths
      exact root lengths
    rw [if_neg root, if_neg nested]
    simp [String.append_assoc]

/-- The collapse gives the text of the directory where the condition holds. -/
theorem collapse_eq_iff (known : crates.parse url = some parsed) (http : parts.Http parsed)
    (page : IndexPage (crates.path parsed) parent) :
    crates.collapseIndexPath url = parts.directoryText parsed parent ↔
      NoUpper parent ∧ (parent = "" → parts.after parsed = "") := by
  rw [parts.collapse_page known http page, directoryText]
  by_cases root : parent = ""
  · subst root
    have lower : NoUpper "" := by simp [NoUpper]
    by_cases bare : parts.after parsed = ""
    · simp [bare, lower, Text.dropLastChar]
    · simp only [bare, and_false, if_true, if_false, lower, forall_const, iff_false]
      -- a character is missing
      intro same
      have lengths := congrArg (fun text => text.toList.length) same
      simp [Text.dropLastChar] at lengths
  · simp only [root, false_and, if_false, false_imp_iff, and_true]
    rw [← UrlCrates.toAsciiLowercase_eq_self_iff]
    simp [← String.toList_inj]

theorem onlyIndexCollapsed_iff (known : crates.parse url = some parsed) (http : parts.Http parsed) :
    parts.OnlyIndexCollapsed parsed url (crates.collapseIndexPath url) ↔ parts.CollapsesCleanly parsed := by
  constructor
  · exact fun only parent page => (parts.collapse_eq_iff known http page).mp (only.collapsed parent page)
  · exact fun cleanly => {
      collapsed := fun parent page => (parts.collapse_eq_iff known http page).mpr (cleanly parent page)
      other := UrlCrates.collapseIndexPath_other known }

/-- The URLs of a directory and of its index page, as the normalising crate leaves them. -/
structure DirectoryPair (config : NormalizeConfig) (dirUrl indexUrl : String) (dir page : crates.Url)
    (parent : String) : Prop where
  dir_absolute : Text.contains dirUrl "://" = true
  index_absolute : Text.contains indexUrl "://" = true
  dir_parsed : crates.parse (crates.normalized dirUrl config) = some dir
  page_parsed : crates.parse (crates.normalized indexUrl config) = some page
  page_http : parts.Http page
  before : parts.before dir = parts.before page
  after : parts.after dir = parts.after page
  dir_path : crates.path dir = parent ++ "/"
  page_path : IndexPage (crates.path page) parent
  dir_text : crates.normalized dirUrl config = parts.directoryText dir parent

/-- The collapse in `normalize_url` takes an index page off an http URL and nothing else exactly where
the directory has no upper-case letter and, where it is the root, no query follows. Under the same
condition a directory and its index page have one normal form. -/
theorem normalizeUrl_collapse_iff (crates : UrlCrates) (parts : UrlParts crates) (config : NormalizeConfig) :
    (∀ url parsed, Text.contains url "://" = true →
      crates.parse (crates.normalized url config) = some parsed → parts.Http parsed →
      (parts.OnlyIndexCollapsed parsed (crates.normalized url config) (crates.normalizeUrl url config) ↔
        parts.CollapsesCleanly parsed)) ∧
    ∀ dirUrl indexUrl dir page parent, parts.DirectoryPair config dirUrl indexUrl dir page parent →
      (crates.normalizeUrl dirUrl config = crates.normalizeUrl indexUrl config ↔
        NoUpper parent ∧ (parent = "" → parts.after page = "")) := by
  constructor
  · intro url parsed absolute known http
    rw [UrlCrates.normalizeUrl_eq config absolute]
    exact parts.onlyIndexCollapsed_iff known http
  · intro dirUrl indexUrl dir page parent pair
    have kept : crates.collapseIndexPath (crates.normalized dirUrl config) =
        parts.directoryText page parent := by
      rw [UrlCrates.collapseIndexPath_other pair.dir_parsed, pair.dir_text]
      · unfold directoryText
        rw [pair.before, pair.after]
      · rw [pair.dir_path]
        exact UrlCrates.not_indexPage_directory parent
    rw [UrlCrates.normalizeUrl_eq config pair.dir_absolute,
      UrlCrates.normalizeUrl_eq config pair.index_absolute, kept, eq_comm]
    exact parts.collapse_eq_iff pair.page_parsed pair.page_http pair.page_path

end UrlParts

/-! The crates on URLs of a plain host, a path and a query. -/

namespace IndexRuns

def parse (url : String) : Option (String × String × String) :=
  (PlainUrl.splitScheme url.toList).map fun (scheme, rest) =>
    let host := rest.takeWhile fun c => c ≠ '/' ∧ c ≠ '?'
    let behind := rest.dropWhile fun c => c ≠ '/' ∧ c ≠ '?'
    let path := behind.takeWhile (· ≠ '?')
    (String.ofList (scheme ++ host), if path = [] then "/" else String.ofList path,
      String.ofList (behind.dropWhile (· ≠ '?')))

def urls : UrlCrates where
  Url := String × String × String
  normalize := PlainUrl.normalize
  parse
  path url := url.2.1
  setPath url path := (url.1, path, url.2.2)
  render url := url.1 ++ url.2.1 ++ url.2.2

def parts : UrlParts urls where
  scheme url := String.ofList (url.1.toList.takeWhile (· ≠ ':'))
  before url := url.1
  after url := url.2.2
  render_eq _ := rfl
  setPath_eq _ _ _ _ _ := ⟨rfl, rfl, rfl⟩

def keepQuery : NormalizeConfig := ⟨true, .none⟩

def page (path query : String) : String × String × String := ("https://example.com", path, query)

theorem noUpper_of_all {text : String} (all : (text.toList.all fun c => !c.isUpper) = true) :
    NoUpper text := by simpa [NoUpper] using all

theorem http (path query : String) : parts.Http (page path query) := by
  have https : String.ofList ("https://example.com".toList.takeWhile (· ≠ ':')) = "https" := by
    decide
  exact .inr https

theorem parse_docs : parse (urls.normalized "https://example.com/docs/" keepQuery) =
    some (page "/docs/" "") ∧
    parse (urls.normalized "https://example.com/docs/index.html" keepQuery) =
      some (page "/docs/index.html" "") := by decide

theorem docs_pair : parts.DirectoryPair keepQuery "https://example.com/docs/"
    "https://example.com/docs/index.html" (page "/docs/" "") (page "/docs/index.html" "") "/docs" where
  dir_absolute := by decide
  index_absolute := by decide
  dir_parsed := parse_docs.1
  page_parsed := parse_docs.2
  page_http := http _ _
  before := rfl
  after := rfl
  dir_path := by decide
  page_path := ⟨"index.html", by decide, .inl (by decide)⟩
  dir_text := by decide

end IndexRuns

open IndexRuns in
/-- The directory of the first page changes its letter case, and the query of the second page loses its
last character. -/
theorem collapse_changes_more :
    urls.normalizeUrl "https://example.com/Docs/index.html" keepQuery = "https://example.com/docs/" ∧
    ¬ parts.OnlyIndexCollapsed (page "/Docs/index.html" "") "https://example.com/Docs/index.html"
      (urls.normalizeUrl "https://example.com/Docs/index.html" keepQuery) ∧
    urls.normalizeUrl "https://example.com/Docs/" keepQuery = "https://example.com/Docs/" ∧
    urls.normalizeUrl "https://example.com/index.html?page=1" keepQuery = "https://example.com/?page=" ∧
    ¬ parts.OnlyIndexCollapsed (page "/index.html" "?page=1") "https://example.com/index.html?page=1"
      (urls.normalizeUrl "https://example.com/index.html?page=1" keepQuery) ∧
    urls.normalizeUrl "https://example.com/?page=1" keepQuery = "https://example.com/?page=1" := by
  have docs : urls.normalizeUrl "https://example.com/Docs/index.html" keepQuery =
      "https://example.com/docs/" := by decide
  have root : urls.normalizeUrl "https://example.com/index.html?page=1" keepQuery =
      "https://example.com/?page=" := by decide
  refine ⟨docs, fun only => ?_, by decide, root, fun only => ?_, by decide⟩
  · have index : IndexPage "/Docs/index.html" "/Docs" :=
      ⟨"index.html", by decide, .inl (by decide)⟩
    have text := docs.symm.trans (only.collapsed "/Docs" index)
    exact absurd text (by decide)
  · have index : IndexPage "/index.html" "" := ⟨"index.html", by decide, .inl (by decide)⟩
    have text := root.symm.trans (only.collapsed "" index)
    exact absurd text (by decide)

open IndexRuns in
/-- The index page of `/docs/` meets the condition. -/
theorem docs_collapse_to_one :
    parts.OnlyIndexCollapsed (page "/docs/index.html" "")
      (urls.normalized "https://example.com/docs/index.html" keepQuery)
      (urls.normalizeUrl "https://example.com/docs/index.html" keepQuery) ∧
    urls.normalizeUrl "https://example.com/docs/" keepQuery =
      urls.normalizeUrl "https://example.com/docs/index.html" keepQuery := by
  have both := UrlParts.normalizeUrl_collapse_iff urls parts keepQuery
  constructor
  · have known : urls.parse (urls.normalized "https://example.com/docs/index.html" keepQuery) =
        some (page "/docs/index.html" "") := parse_docs.2
    refine (both.1 _ _ (by decide) known (http _ _)).mpr ?_
    rintro parent ⟨name, whole, -⟩
    refine ⟨fun c member => ?_, fun _ => rfl⟩
    -- the directory is a part of a path in lower case
    have lower : NoUpper "/docs/index.html" := noUpper_of_all (by decide)
    refine lower c ?_
    rw [show "/docs/index.html" = parent ++ "/" ++ name from whole, String.append_assoc,
      String.toList_append]
    exact List.mem_append_left _ member
  · exact (both.2 _ _ _ _ "/docs" docs_pair).mpr ⟨noUpper_of_all (by decide), nofun⟩

end Webfang.Domain
