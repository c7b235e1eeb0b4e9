import Webfang.Library.Text

/-!
# Filename derivation

`domain/crawler_port/filename.rs`: the parsing of a Content-Disposition value, the sanitizer of
a file name and the name derived for a page. `DefaultHasher` over one string is a parameter.
-/
namespace Webfang.Domain

open Library

namespace Filename

def maxFilenameLen : Nat := 255

def windowsReserved : List String :=
  ["CON", "PRN", "AUX", "NUL", "COM1", "COM2", "COM3", "COM4", "COM5", "COM6", "COM7", "COM8",
    "COM9", "LPT1", "LPT2", "LPT3", "LPT4", "LPT5", "LPT6", "LPT7", "LPT8", "LPT9"]

def reservedSafeSuffix : String := "_safe"

def windowsInvalidComponentChars : List Char := ['<', '>', '"', '|', '?', '*', ':']

def invalidCharReplacement : Char := '_'

def isWindowsReserved (name : List Char) : Bool :=
  let stem := name.takeWhile (· ≠ '.')
  windowsReserved.contains (Text.toAsciiUppercase (String.ofList stem))

/-! ### The Content-Disposition value -/

def hexValue (c : Char) : Option Nat :=
  if c.isDigit then some (c.toNat - '0'.toNat)
  else if 'a' ≤ c ∧ c ≤ 'f' then some (c.toNat - 'a'.toNat + 10)
  else if 'A' ≤ c ∧ c ≤ 'F' then some (c.toNat - 'A'.toNat + 10)
  else none

/-- `u8::from_str_radix(hex, 16)` of at most two characters: a plus sign may come first. -/
def u8FromHex (hex : List Char) : Option Nat :=
  let digits := match hex with
    | '+' :: rest => rest
    | all => all
  if digits = [] then none
  else (digits.mapM hexValue).map fun values => values.foldl (fun n digit => 16 * n + digit) 0

/-- What `%` and the two characters after it, where there are two, become. -/
def decodeEscape (hex : List Char) : List Char :=
  match u8FromHex hex with
  | some byte => [Char.ofNat byte]
  | none => '%' :: hex

def percentDecode : List Char → List Char
  | [] => []
  | ['%'] => decodeEscape []
  | ['%', a] => decodeEscape [a]
  | '%' :: a :: b :: rest => decodeEscape [a, b] ++ percentDecode rest
  | c :: rest => c :: percentDecode rest

/-- The extended form comes first, wherever it stands in the value. -/
def parseContentDisposition (value : String) : Option String :=
  let parts := (value.toList.splitOn ';').map fun part => Text.trim (String.ofList part)
  let extended (part : String) : Option String := do
    let rest ← Text.stripPrefix part "filename*="
    let name ← Text.stripPrefix rest "UTF-8''"
    let decoded := percentDecode name.toList
    if decoded = [] then none else some (String.ofList decoded)
  let standard (part : String) : Option String := do
    let rest ← Text.stripPrefix part "filename="
    let isQuote (c : Char) : Bool := c = '"' || c = '\''
    let name := (rest.toList.dropWhile isQuote).rdropWhile isQuote
    if name = [] then none else some (String.ofList name)
  (parts.findSome? extended).or (parts.findSome? standard)

/-! ### The sanitizer -/

def neutralizeWindowsInvalidChars (name : List Char) : List Char :=
  name.map fun c => if c ∈ windowsInvalidComponentChars then invalidCharReplacement else c

def trimWindowsTrailingDotsAndSpaces (name : List Char) : List Char :=
  name.rdropWhile fun c => c = '.' || c = ' '

def truncateOnCharBoundary : (maxBytes : Nat) → List Char → List Char
  | _, [] => []
  | maxBytes, c :: rest =>
    if c.utf8Size ≤ maxBytes then c :: truncateOnCharBoundary (maxBytes - c.utf8Size) rest else []

/-- `{:08x}`. -/
def hash8 (hash : UInt64) : List Char :=
  let digits := Text.lowerHex hash.toNat
  List.replicate (8 - digits.length) '0' ++ digits

def isSeparator (c : Char) : Bool := c = '/' || c = '\\'

def sanitizeFilenameComponent (hash : String → UInt64) (name : String) : Option String := do
  let cleaned := name.toList.filter fun c => !Text.isControl c
  let segment ← (cleaned.splitOnP isSeparator).reverse.find? fun segment =>
    segment ≠ [] ∧ segment ≠ ['.'] ∧ segment ≠ ['.', '.']
  let candidate := trimWindowsTrailingDotsAndSpaces (neutralizeWindowsInvalidChars segment)
  if candidate = [] then none
  else
    let candidate :=
      if isWindowsReserved candidate then candidate ++ reservedSafeSuffix.toList else candidate
    if Text.utf8Len candidate ≤ maxFilenameLen then some (String.ofList candidate)
    else
      let digits := hash8 (hash (String.ofList candidate))
      let kept := truncateOnCharBoundary (maxFilenameLen - 1 - digits.length) candidate
      some (String.ofList (kept ++ '-' :: digits))

/-- The fallback stands where nothing of the name is left. -/
def confineFilenameComponent (hash : String → UInt64) (raw fallback : String) : String :=
  (sanitizeFilenameComponent hash raw).getD fallback

/-! ### The name of a page -/

/-- `url::Url`, by the parts that are read. -/
structure Url where
  asStr : String
  path : String
  hostStr : Option String
  deriving DecidableEq, Repr

/-- `url.path().rsplit('/').next()`. -/
def basename (path : String) : String :=
  String.ofList ((path.toList.reverse.takeWhile (· ≠ '/')).reverse)

def extensionOf (contentType : String) : String :=
  if Text.contains contentType "application/pdf" then "pdf"
  else if Text.contains contentType "application/zip" then "zip"
  else if Text.contains contentType "application/x-tar" then "tar"
  else if Text.contains contentType "image/png" then "png"
  else if Text.contains contentType "image/jpeg" then "jpg"
  else if Text.contains contentType "image/gif" then "gif"
  else if Text.contains contentType "image/webp" then "webp"
  else if Text.contains contentType "image/svg" then "svg"
  else if Text.contains contentType "audio/mpeg" then "mp3"
  else if Text.contains contentType "video/mp4" then "mp4"
  else "bin"

/-- The parts of a synthesised name: the host, the first digits of the hash of the path, and the
extension. -/
@[ext]
structure FallbackName where
  host : List Char
  digits : List Char
  extension : List Char
  deriving DecidableEq, Repr

def FallbackName.filename (name : FallbackName) : String :=
  String.ofList (name.host ++ '_' :: name.digits ++ '.' :: name.extension)

/-- `none` is the panic of `&path_hash[..8]`: the hash is written without leading zeros. -/
def fallbackName (hash : String → UInt64) (url : Url) (contentType : String) : Option FallbackName :=
  let ext := (extensionOf contentType).toList
  let host := (url.hostStr.getD "unknown").toList.map fun c => if c = '.' then '_' else c
  let pathHash := Text.lowerHex (hash url.path).toNat
  if pathHash.length < 8 then none
  else
    let digits := pathHash.take 8
    let tailLen := 1 + digits.length + 1 + ext.length
    some ⟨truncateOnCharBoundary (maxFilenameLen - tailLen) host, digits, ext⟩

/-- The name from the Content-Disposition header, or else from the last segment of the path. -/
def serverName (hash : String → UInt64) (contentDisposition : Option String) (url : Url) : Option String :=
  match (contentDisposition.bind parseContentDisposition).bind (sanitizeFilenameComponent hash) with
  | some name => some name
  | none =>
    let base := basename url.path
    if base = "" then none
    else sanitizeFilenameComponent hash (String.ofList (base.toList.takeWhile (· ≠ '?')))

def deriveFilenameFromContentDisposition (hash : String → UInt64) (contentDisposition : Option String)
    (url : Url) (contentType : String) : Option String :=
  match serverName hash contentDisposition url with
  | some name => some name
  | none => (fallbackName hash url contentType).map FallbackName.filename

def extensions : List String := ["pdf", "zip", "tar", "png", "jpg", "gif", "webp", "svg", "mp3", "mp4", "bin"]

theorem extensionOf_mem (contentType : String) : extensionOf contentType ∈ extensions := by
  have branch {c : Prop} [Decidable c] {taken rest : String} (here : taken ∈ extensions)
      (later : rest ∈ extensions) : (if c then taken else rest) ∈ extensions := by
    split
    next => exact here
    next => exact later
  unfold extensionOf
  iterate 10 refine branch (by decide) ?_
  decide

theorem extensionOf_plain (contentType : String) : '.' ∉ (extensionOf contentType).toList := by
  have plain : ∀ extension ∈ extensions, '.' ∉ extension.toList := by decide
  exact plain _ (extensionOf_mem contentType)

/-- A list is cut at the last occurrence of an element in one way. -/
theorem append_cons_inj {c : Char} {xs ys before before' : List Char} (last : c ∉ xs) (last' : c ∉ ys)
    (same : before ++ c :: xs = before' ++ c :: ys) : before = before' ∧ xs = ys := by
  have reversed := congrArg (List.takeWhile (· ≠ c)) (congrArg List.reverse same)
  have cut {zs front : List Char} (last : c ∉ zs) :
      (front ++ c :: zs).reverse.takeWhile (· ≠ c) = zs.reverse := by
    have all : ∀ d ∈ zs.reverse, (decide (d ≠ c)) = true := by
      intro d member
      refine decide_eq_true fun equal => last ?_
      rw [← equal]
      exact List.mem_reverse.mp member
    rw [List.reverse_append, List.reverse_cons, List.append_assoc, List.takeWhile_append_of_pos all]
    simp
  rw [cut last, cut last', List.reverse_inj] at reversed
  subst reversed
  exact ⟨List.append_cancel_right same, rfl⟩

theorem fallbackName_parts {hash : String → UInt64} {url : Url} {contentType : String} {name : FallbackName}
    (derived : fallbackName hash url contentType = some name) :
    name.digits.length = 8 ∧ '.' ∉ name.extension := by
  unfold fallbackName at derived
  dsimp only at derived
  split at derived
  next => cases derived
  next enough =>
    cases derived
    refine ⟨?_, extensionOf_plain contentType⟩
    rw [List.length_take]
    omega

/-- The parts of a synthesised name can be read off it. -/
theorem fallbackName_filename_inj {hash : String → UInt64} {url url' : Url}
    {contentType contentType' : String} {name name' : FallbackName}
    (derived : fallbackName hash url contentType = some name)
    (derived' : fallbackName hash url' contentType' = some name')
    (same : name.filename = name'.filename) : name = name' := by
  obtain ⟨length, plain⟩ := fallbackName_parts derived
  obtain ⟨length', plain'⟩ := fallbackName_parts derived'
  obtain ⟨front, extension⟩ := append_cons_inj plain plain' (String.ofList_inj.mp same)
  have tails : ('_' :: name.digits).length = ('_' :: name'.digits).length := by
    rw [List.length_cons, List.length_cons, length, length']
  obtain ⟨host, tail⟩ := List.append_inj' front tails
  exact FallbackName.ext host (List.cons.inj tail).2 extension

example : parseContentDisposition "attachment; filename=\"report.pdf\"; filename*=UTF-8''a%20b" =
    some "a b" := by decide

end Filename

end Webfang.Domain
