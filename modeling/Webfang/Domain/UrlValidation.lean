import Webfang.Library.Text

/-!
# URL normalisation

`domain/url_validation.rs` and the canonical key of `application/resume.rs`. The `url` and
`url-normalize` crates are a parameter: the code uses a parser with a path accessor and
setter, and one normalising function.
-/
namespace Webfang.Domain

open Library

inductive RemoveQueryParameters where
  | none
  | all
  | list
  deriving DecidableEq, Repr

structure NormalizeConfig where
  stripWww : Bool
  queryPolicy : RemoveQueryParameters

/-- The options of the normalising crate that the code sets; the rest keep its defaults. -/
structure NormalizeOptions where
  stripHash : Bool
  removeTrailingSlash : Bool
  removeQueryParameters : RemoveQueryParameters
  sortQueryParameters : Bool
  stripWww : Bool
  forceHttps : Bool
  deriving DecidableEq, Repr

structure UrlCrates where
  Url : Type
  normalize : String → NormalizeOptions → Option String
  parse : String → Option Url
  path : Url → String
  setPath : Url → String → Url
  render : Url → String

namespace UrlCrates

variable (crates : UrlCrates)

def collapseIndexPath (url : String) : String :=
  match crates.parse url with
  | none => url
  | some parsed =>
    let lower := Text.toAsciiLowercase (crates.path parsed)
    match (Text.stripSuffix lower "/index.html").orElse fun _ => Text.stripSuffix lower "/index.htm" with
    | none => url
    | some parent =>
      let parsed := crates.setPath parsed (parent ++ "/")
      let result := crates.render parsed
      -- the crate serialises a bare root with its slash, the normaliser without
      if crates.path parsed = "/" then Text.dropLastChar result else result

def normalizeUrl (url : String) (config : NormalizeConfig) : String :=
  if !Text.contains url "://" then url
  else
    let queryPolicy :=
      match config.queryPolicy with
      | .none => .none
      | .all => .all
      | .list => .all
    let normalized := (crates.normalize url {
      stripHash := true
      removeTrailingSlash := false
      removeQueryParameters := queryPolicy
      sortQueryParameters := true
      stripWww := config.stripWww
      forceHttps := false }).getD url
    crates.collapseIndexPath normalized

/-- The key every record is stored and looked up under. -/
def canonicalKey (url : String) : String :=
  crates.normalizeUrl url { stripWww := true, queryPolicy := .all }

end UrlCrates

/-! The two crates on plain URLs, `scheme://host/path` without escapes, for concrete runs. -/

namespace PlainUrl

/-- The scheme with its separator, and the rest. -/
def splitScheme : List Char → Option (List Char × List Char)
  | ':' :: '/' :: '/' :: rest => some ([':', '/', '/'], rest)
  | c :: rest => (splitScheme rest).map fun (scheme, rest) => (c :: scheme, rest)
  | [] => none

def parse (url : String) : Option (String × String) :=
  (splitScheme url.toList).map fun (scheme, rest) =>
    let host := rest.takeWhile (· ≠ '/')
    let path := rest.dropWhile (· ≠ '/')
    (String.ofList (scheme ++ host), if path = [] then "/" else String.ofList path)

def stripWww : List Char → List Char
  | 'w' :: 'w' :: 'w' :: '.' :: rest => rest
  | rest => rest

def normalize (url : String) (options : NormalizeOptions) : Option String :=
  (splitScheme url.toList).map fun (scheme, rest) =>
    let rest := if options.stripHash then rest.takeWhile (· ≠ '#') else rest
    let rest :=
      if options.removeQueryParameters = .all then rest.takeWhile (· ≠ '?') else rest
    let rest := if options.stripWww then stripWww rest else rest
    let host := rest.takeWhile (· ≠ '/')
    let path := rest.dropWhile (· ≠ '/')
    String.ofList (scheme ++ host ++ if path = ['/'] then [] else path)

end PlainUrl

def plainUrls : UrlCrates where
  Url := String × String
  normalize := PlainUrl.normalize
  parse := PlainUrl.parse
  path := Prod.snd
  setPath url path := (url.1, path)
  render url := url.1 ++ url.2

end Webfang.Domain
