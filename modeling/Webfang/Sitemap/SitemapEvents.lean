import Webfang.Sitemap.SitemapParser

/-!
# The reading of a sitemap document

`parse_sitemap_core` of `infrastructure/crawler/sitemap_parser.rs` over the events of the XML reader,
with the resolution and the validation of a `<loc>`.
-/
namespace Webfang.Sitemap

open Library

/-! ### The URL of a loc -/

/-- Hosts of parsed URLs are ASCII. -/
def stripWwwPrefix (host : String) : String :=
  match Text.stripPrefix (Text.toAsciiLowercase host) "www." with
  | some stripped => if stripped.isEmpty then host else stripped
  | none => host

inductive ValidationResult where
  | valid
  | invalid (reason : String)
  | needsRedirect (url : String)
  deriving DecidableEq, Repr

namespace UrlCrate

variable (crate : UrlCrate)

def extractDomain (url : String) : Option String :=
  match crate.parse url with
  | .ok url => crate.hostStr url
  | .error _ => none

def normalizeSeedHost (seed : String) : String :=
  match crate.extractDomain seed with
  | some host => stripWwwPrefix host
  | none =>
    -- a bare host, without a path or a port behind it
    let withoutPath := seed.toList.takeWhile (· ≠ '/')
    stripWwwPrefix (String.ofList (withoutPath.takeWhile (· ≠ ':')))

def isInternalLink (url seedDomain : String) : Bool :=
  let seedHost := Text.toAsciiLowercase (crate.normalizeSeedHost seedDomain)
  match crate.extractDomain url with
  | none => false
  | some host =>
    let host := Text.toAsciiLowercase host
    host == seedHost || (Text.stripSuffix host ("." ++ seedHost)).isSome ||
      (Text.stripSuffix seedHost ("." ++ host)).isSome

def resolveUrl (base input : String) : Option String :=
  let input := Text.trim input
  if input.isEmpty then none
  else if (Text.stripPrefix input "http://").isSome || (Text.stripPrefix input "https://").isSome then
    (crate.parse input).toOption
  else
    match crate.join base input with
    | none => none
    | some resolved =>
      if crate.isInternalLink resolved ((crate.hostStr base).getD "") then some resolved else none

/-- The version of a Node.js release page, where its major number is over 99. -/
def oversizedVersion (path : String) : Option String :=
  let marker := "/blog/release/v".toList
  match Text.splitFirst marker path.toList with
  | none => none
  | some (_, behind) =>
    let versionPart := ((Text.splitFirst marker behind).map Prod.fst).getD behind
    let version := versionPart.takeWhile fun c => c ≠ '?' ∧ c ≠ '#'
    let major := (Text.parseUsize (String.ofList (version.takeWhile (· ≠ '.')))).filter (· < 2 ^ 32)
    if major.any (· > 99) then some (String.ofList version) else none

def filterInvalidPatterns (url : String) : ValidationResult :=
  match oversizedVersion (crate.path url) with
  | some version => .invalid s!"Invalid Node.js version pattern: v{version}"
  | none =>
    let scheme := crate.scheme url
    if scheme = "http" ∨ scheme = "https" then .valid else .invalid s!"Unsupported scheme: {scheme}"

end UrlCrate

/-! ### The reader -/

/-- What the reader delivers: empty-element tags, CDATA sections and references have events of their
own. A text comes with the outcome of decoding it. Everything else is `other`. -/
inductive Event where
  | start (name : String)
  | «end» (name : String)
  | empty (name : String)
  | text (decoded : Except String String)
  | cdata (content : String)
  | generalRef (name : String)
  | other

/-- The flags: the elements the reader is in. -/
structure Inside where
  url : Bool
  sitemap : Bool
  loc : Bool
  lastmod : Bool
  priority : Bool
  changefreq : Bool
  deriving DecidableEq, Repr

def Inside.nothing : Inside := ⟨false, false, false, false, false, false⟩

/-- What the element read now has come to. -/
structure Current (floats : Floats) where
  url : Option String
  lastmod : Option String
  priority : Option floats.F32
  changefreq : Option String

structure CoreState (floats : Floats) where
  urls : List (SitemapUrl floats)
  rootTag : Option String
  isIndex : Bool
  sawElement : Bool
  inside : Inside
  current : Current floats

/-- The arguments of `parse_sitemap_core`; a validator has one behaviour. -/
structure CoreParser where
  crate : UrlCrate
  baseUrl : String
  handleSitemapIndex : Bool
  urlValidator : Bool

variable {floats : Floats}

def Current.none : Current floats := ⟨.none, .none, .none, .none⟩

def CoreState.initial : CoreState floats := ⟨[], none, false, false, .nothing, .none⟩

namespace CoreParser

variable (parser : CoreParser)

def applyUrlValidation (url : String) (current : Option String) : Option String :=
  if parser.urlValidator then
    match parser.crate.filterInvalidPatterns url with
    | .valid => some url
    | .invalid _ => current
    | .needsRedirect newUrl => some newUrl
  else some url

def readLoc (text : String) (current : Option String) : Option String :=
  let urlStr := Text.trim text
  if urlStr.isEmpty then current
  else
    match parser.crate.resolveUrl parser.baseUrl urlStr with
    | some url => parser.applyUrlValidation url current
    | none => current

/-- The root decides whether this is an index. -/
def classifyRoot (state : CoreState floats) (name : String) : Except SitemapError (CoreState floats) :=
  if parser.handleSitemapIndex && state.rootTag.isNone then
    if name = "sitemapindex" then .ok { state with rootTag := some name, isIndex := true }
    else if name = "urlset" then .ok { state with rootTag := some name }
    else .error .invalidStructure
  else .ok state

def enter (state : CoreState floats) (name : String) : CoreState floats :=
  let inside := state.inside
  if name = "url" then { state with inside := { inside with url := true }, current := .none }
  else if parser.handleSitemapIndex && name = "sitemap" then
    { state with
      inside := { inside with sitemap := true }
      current := { state.current with url := none, lastmod := none } }
  else if (inside.url || (parser.handleSitemapIndex && inside.sitemap)) && name = "loc" then
    { state with inside := { inside with loc := true } }
  else if inside.url && name = "lastmod" then { state with inside := { inside with lastmod := true } }
  else if inside.url && name = "priority" then { state with inside := { inside with priority := true } }
  else if inside.url && name = "changefreq" then
    { state with inside := { inside with changefreq := true } }
  else state

def leave (state : CoreState floats) (name : String) : CoreState floats :=
  let inside := state.inside
  let current := state.current
  if name = "url" then
    let state := { state with inside := { inside with url := false } }
    match current.url with
    | some url =>
      let entry := ⟨url, current.lastmod, current.priority, current.changefreq⟩
      { state with urls := state.urls ++ [entry] }
    | none => state
  else if parser.handleSitemapIndex && name = "sitemap" then
    let state := { state with inside := { inside with sitemap := false } }
    match current.url with
    | some url => { state with urls := state.urls ++ [⟨url, current.lastmod, none, none⟩] }
    | none => state
  else if name = "loc" then { state with inside := { inside with loc := false } }
  else if name = "lastmod" then { state with inside := { inside with lastmod := false } }
  else if name = "priority" then { state with inside := { inside with priority := false } }
  else if name = "changefreq" then { state with inside := { inside with changefreq := false } }
  else state

/-- A text belongs to the first of the open fields. Only in a loc is it an error that it cannot be
decoded. -/
def readText (state : CoreState floats) (decoded : Except String String) :
    Except SitemapError (CoreState floats) :=
  let inside := state.inside
  let current := state.current
  if inside.loc then
    match decoded with
    | .error e => .error (.xmlError e)
    | .ok text => .ok { state with current := { current with url := parser.readLoc text current.url } }
  else
    match decoded with
    | .error _ => .ok state
    | .ok text =>
      let text := Text.trim text
      if inside.lastmod then .ok { state with current := { current with lastmod := some text } }
      else if inside.priority then
        match floats.parse text with
        | some p => .ok { state with current := { current with priority := some (floats.clamp p) } }
        | none => .ok state
      else if inside.changefreq then .ok { state with current := { current with changefreq := some text } }
      else .ok state

def step (state : CoreState floats) : Event → Except SitemapError (CoreState floats)
  | .start name =>
    match parser.classifyRoot { state with sawElement := true } name with
    | .error e => .error e
    | .ok state => .ok (parser.enter state name)
  | .end name => .ok (parser.leave state name)
  | .text decoded => parser.readText state decoded
  | .cdata content =>
    if state.inside.loc then
      let current := state.current
      .ok { state with current := { current with url := parser.readLoc content current.url } }
    else .ok state
  | .empty _ => .ok state
  | .generalRef _ => .ok state
  | .other => .ok state

def stepRead (state : CoreState floats) : Except String Event → Except SitemapError (CoreState floats)
  | .error e => .error (.xmlError e)
  | .ok event => parser.step state event

/-- The entries of a document, and whether it is an index. The reader delivers the events up to the
end of the document. -/
def parseSitemapCore (reader : List (Except String Event)) :
    Except SitemapError (List (SitemapUrl floats) × Bool) := do
  let state ← reader.foldlM parser.stepRead .initial
  if !state.sawElement then .error .invalidStructure else .ok (state.urls, state.isIndex)

end CoreParser

end Webfang.Sitemap
