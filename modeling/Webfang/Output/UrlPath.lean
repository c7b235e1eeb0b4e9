import Webfang.Domain.Filename
import Webfang.Library.Subslice
import Webfang.Library.UnixPath
import Webfang.Library.Utf8

/-!
# Output paths of URLs

`adapters/url_path.rs`: the file a page is written to, as a text put together from its host, the
folders of its path and a file name. `DefaultHasher` over one string and the Unicode tables of
`char::is_alphanumeric` are parameters.
-/
namespace Webfang.Output

open Library UnixPath

/-- `char::is_alphanumeric`: on ASCII the letters and the digits. -/
structure CharTables where
  isAlphanumeric : Char → Bool
  ascii : ∀ c : Char, c.toNat < 128 → isAlphanumeric c = c.isAlphanum

def CharTables.ofAscii : CharTables := ⟨Char.isAlphanum, fun _ _ => rfl⟩

/-- A parsed http(s) URL, by the parts that are read. The parser gives every such URL a host. -/
structure Url where
  host : List Char
  path : List Char
  query : Option (List Char)
  fragment : Option (List Char)
  hosted : host ≠ []
  flat : sep ∉ host
  deriving DecidableEq

def maxFilenameBodyBytes : Nat := 180

/-- The cut is at the last character boundary within the budget, and the lower 32 bits of the hash
follow it. -/
def truncateWithHash (hash : String → UInt64) (s : List Char) (maxBytes : Nat) : List Char :=
  if Text.utf8Len s ≤ maxBytes then s
  else
    let hashVal := hash (String.ofList s)
    let prefixBudget := maxBytes - 9
    Domain.Filename.truncateOnCharBoundary prefixBudget s ++
      '_' :: Domain.Filename.hash8 (hashVal &&& 0xFFFFFFFF)

def wwwPrefix : List Char := "www.".toList

/-- `Domain::from_url`. -/
def domain (url : Url) : List Char :=
  if wwwPrefix.isPrefixOf url.host then url.host.drop wwwPrefix.length else url.host

structure UrlPath where
  raw : List Char
  isRoot : Bool
  endsWithSlash : Bool
  deriving DecidableEq, Repr

inductive OutputFormat where
  | markdown
  | json
  | text
  deriving DecidableEq, Repr

def OutputFormat.extension : Option OutputFormat → List Char
  | some .json => "json".toList
  | some .text => "txt".toList
  | some .markdown => "md".toList
  | none => "md".toList

def sanitizeQueryPart (s : List Char) : List Char :=
  s.map fun c => if c ∈ ['?', '&', ':', '=', '#', '/'] then '_' else c

/-! ### Percent decoding -/

/-- `char::from(byte).to_digit(16)`. -/
def hexDigit (byte : UInt8) : Option Nat := Domain.Filename.hexValue (Char.ofNat byte.toNat)

/-- `percent_decode_str`: an escape is a percent sign before two hexadecimal digits. -/
def percentDecode : List UInt8 → List UInt8
  | 0x25 :: high :: low :: rest =>
    match hexDigit high, hexDigit low with
    | some h, some l => UInt8.ofNat (16 * h + l) :: percentDecode rest
    | _, _ => 0x25 :: percentDecode (high :: low :: rest)
  | b :: rest => b :: percentDecode rest
  | [] => []

/-- `percent_decode_str(s).decode_utf8_lossy()`. -/
def percentDecodeLossy (s : List Char) : List Char :=
  let bytes := percentDecode (Utf8.encode (String.ofList s))
  ((Utf8.decode? (Subslice.fromUtf8Lossy bytes)).getD "").toList

namespace CharTables

variable (tables : CharTables)

def allowed (c : Char) : Bool := tables.isAlphanumeric c || c = '-' || c = '_' || c = '.'

def foldChar (c : Char) : Char := if tables.allowed c then c else '_'

def sanitizePathSegment (s : List Char) : List Char := s.map tables.foldChar

end CharTables

namespace UrlPath

def fromUrlPath (path : List Char) : UrlPath :=
  let clean := path.takeWhile (· ≠ '?')
  let clean := clean.takeWhile (· ≠ '#')
  let normalized := if clean.head? = some '/' then clean else '/' :: clean
  let isRoot := decide (normalized = ['/'])
  let endsWithSlash := decide (normalized.getLast? = some '/') && !isRoot
  let withoutTrailing := if endsWithSlash then normalized.rdropWhile (· = '/') else normalized
  ⟨withoutTrailing, isRoot, endsWithSlash⟩

def querySuffix (hash : String → UInt64) (query fragment : List Char) : List Char :=
  let suffix := if query ≠ [] then '_' :: sanitizeQueryPart query else []
  let suffix := suffix ++ if fragment ≠ [] then '_' :: sanitizeQueryPart fragment else []
  truncateWithHash hash suffix maxFilenameBodyBytes

def fromUrlWithQuery (hash : String → UInt64) (url : Url) : UrlPath :=
  let base := fromUrlPath url.path
  let query := url.query.getD []
  let fragment := url.fragment.getD []
  if query = [] ∧ fragment = [] then base
  else ⟨base.raw ++ querySuffix hash query fragment, false, false⟩

/-- The path in one piece, before the characters that no file name has are replaced. -/
def slug (path : UrlPath) : List Char :=
  let decoded := percentDecodeLossy path.raw
  let trimmed := (decoded.dropWhile (· = '/')).rdropWhile (· = '/')
  trimmed.map (fun c => if c = '/' then '-' else c) |>.map fun c => if c = ' ' then '_' else c

def toSafeFilenameWithFormat (tables : CharTables) (path : UrlPath) (format : Option OutputFormat) :
    List Char :=
  let extension := OutputFormat.extension format
  if path.isRoot then "index.".toList ++ extension
  else
    let sanitized := tables.sanitizePathSegment path.slug
    let finalName :=
      if Domain.Filename.isWindowsReserved sanitized then sanitized ++ "_safe".toList else sanitized
    let finalName := if path.endsWithSlash && !finalName.isEmpty then finalName ++ ['_'] else finalName
    finalName ++ '.' :: extension

def sanitizeComponent (tables : CharTables) (component : List Char) : List Char :=
  if component = curDir ∨ component = parentDir then ['_'] else tables.sanitizePathSegment component

def toDirectory (tables : CharTables) (path : UrlPath) : List Char :=
  if path.isRoot then []
  else
    let pathTrimmed := path.raw.dropWhile (· = '/')
    if '/' ∈ pathTrimmed then
      -- what stands before the last slash
      let dir := (pathTrimmed.rdropWhile (· ≠ '/')).dropLast
      let components := (dir.splitOn '/').filter fun component => !component.isEmpty
      ['/'].intercalate (components.map (sanitizeComponent tables)) ++ ['/']
    else []

end UrlPath

structure OutputPath where
  domain : List Char
  path : UrlPath
  deriving DecidableEq, Repr

namespace OutputPath

def fromUrl (url : Url) : OutputPath := ⟨Output.domain url, .fromUrlPath url.path⟩

def fromUrlWithQuery (hash : String → UInt64) (url : Url) : OutputPath :=
  ⟨Output.domain url, .fromUrlWithQuery hash url⟩

def outputPrefix : List Char := "./output/".toList

def toFolderPath (tables : CharTables) (path : OutputPath) : List Char :=
  let dir := path.path.toDirectory tables
  if dir = [] then outputPrefix ++ path.domain ++ ['/'] else outputPrefix ++ path.domain ++ '/' :: dir

def toFullPathWithFormat (tables : CharTables) (path : OutputPath) (format : Option OutputFormat) :
    List Char :=
  path.toFolderPath tables ++ path.path.toSafeFilenameWithFormat tables format

def toFullPath (tables : CharTables) (path : OutputPath) : List Char := path.toFullPathWithFormat tables none

end OutputPath

end Webfang.Output
