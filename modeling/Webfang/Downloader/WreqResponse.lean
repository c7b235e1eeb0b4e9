import Webfang.Downloader.DownloaderPort
import Webfang.Waf.Inspector

/-!
# Answers of the HTTP client

What a request of `wreq` comes to, how `infrastructure/downloader/mod.rs` reads its errors,
and what `infrastructure/downloader/wreq_downloader.rs` takes from a response: headers,
cookies and the bounded body.
-/
namespace Webfang.Downloader

open Library
open Waf (Bytes)

/-! ### Transport errors -/

/-- One error of the source chain; an I/O error gives its kind. -/
structure ErrorSource where
  io : Option IoErrorKind
  message : String
  deriving DecidableEq, Repr

structure WreqError where
  isBuilder : Bool
  isTimeout : Bool
  message : String
  sources : List ErrorSource
  deriving DecidableEq, Repr

def stripDisplayMarker (payload marker : String) : String :=
  -- only ASCII letters have their lower case in the markers
  let stripped :=
    match Text.stripPrefix (Text.toAsciiLowercase payload) marker with
    | some _ =>
      String.ofList ((payload.toList.drop marker.length).dropWhile fun c => c == ':' || c == ' ')
    | none => payload
  if stripped = "" then
    if (Text.stripPrefix marker "dns").isSome then "name resolution failed" else "handshake failed"
  else stripped

/-- The walk along the source chain. -/
def DownloadError.ofSources (message : String) : List ErrorSource → DownloadError
  | [] => .network message
  | source :: rest =>
    match source.io with
    | some kind => .io kind source.message
    | none =>
      let msg := Text.toAsciiLowercase source.message
      if Text.contains msg "dns" || Text.contains msg "resolve" then
        .dns (stripDisplayMarker source.message "dns error")
      else if Text.contains msg "tls" || Text.contains msg "certificate" ||
          Text.contains msg "ssl" then
        .tls (stripDisplayMarker source.message "tls error")
      else ofSources message rest

/-- `From<wreq::Error> for DownloadError`. -/
def DownloadError.ofWreq (e : WreqError) : DownloadError :=
  if e.isBuilder then .invalidUrl e.message else .ofSources e.message e.sources

/-- The error says what a server answered. -/
def DownloadError.OfAnswer (e : DownloadError) : Prop :=
  (∃ status message, e = .http status message) ∨ ∃ message, e = .wafChallenge message

theorem DownloadError.not_ofAnswer_ofSources (message : String) (sources : List ErrorSource) :
    ¬ (DownloadError.ofSources message sources).OfAnswer := by
  induction sources with
  | nil => simp [ofSources, OfAnswer]
  | cons source rest ih =>
    rw [ofSources]
    -- an I/O error, a name, a handshake, or the rest of the chain
    split
    · simp [OfAnswer]
    · dsimp only
      split_ifs
      · simp [OfAnswer]
      · simp [OfAnswer]
      · exact ih

theorem DownloadError.not_ofAnswer_ofWreq (e : WreqError) :
    ¬ (DownloadError.ofWreq e).OfAnswer := by
  rw [ofWreq]
  split_ifs
  · simp [OfAnswer]
  · exact not_ofAnswer_ofSources _ _

/-! ### Responses -/

/-- A header value that is no visible ASCII text is `none`. -/
structure Header where
  name : String
  value : Option String
  deriving DecidableEq, Repr

/-- A cookie as the client reads it from a response. -/
structure ResponseCookie where
  name : String
  value : String
  domain : Option String
  path : Option String
  httpOnly : Bool
  secure : Bool
  deriving DecidableEq, Repr

/-- `url` is what `Url::parse` makes of the address the response came from, and the body
arrives chunk by chunk. -/
structure Response where
  status : UInt16
  url : Except String String
  headers : List Header
  cookies : List ResponseCookie
  body : List (Except WreqError Bytes)

/-- What a request comes to. -/
abbrev Answer := Except WreqError Response

namespace Response

variable (response : Response)

def isSuccess : Bool := 200 ≤ response.status && response.status ≤ 299

/-- `headers().get(name)`, read as text. -/
def header (name : String) : Option String :=
  (response.headers.find? fun h => h.name == name).bind (·.value)

/-- The charset of the content type. -/
def charset : String :=
  let param := (response.header "content-type").bind fun value =>
    (value.toList.splitOn ';').findSome? fun part =>
      (Text.stripPrefix (Text.trim (String.ofList part)) "charset=").map fun c =>
        Text.toAsciiLowercase (Text.trim (Text.trimMatches c '"'))
  param.getD "utf-8"

def parseRetryAfterMs (maxMs : Nat) : Nat :=
  let seconds := (response.header "retry-after").bind fun s => Text.parseUsize (Text.trim s)
  min (min (seconds.getD 1 * 1000) (2 ^ 64 - 1)) maxMs

end Response

/-- Of two headers of one name the last one counts. -/
def lowercaseHeaders (headers : List Header) : Std.ExtTreeMap String String :=
  headers.foldl (fun map h =>
    match h.value with
    | some value => map.insert (Text.toAsciiLowercase h.name) value
    | none => map) ∅

/-! ### Cookies -/

/-- The fetched address, with what `host_str` gives for it. -/
structure Url where
  text : String
  host : Option String
  deriving DecidableEq, Repr

def Cookie.applyAttribute (cookie : Cookie) (part : String) : Cookie :=
  let part := Text.toAsciiLowercase (Text.trim part)
  match Text.stripPrefix part "domain=" with
  | some val => { cookie with domain := Text.trim val }
  | none =>
    match Text.stripPrefix part "path=" with
    | some val => { cookie with path := Text.trim val }
    | none =>
      if part = "httponly" then { cookie with httpOnly := true }
      else if part = "secure" then { cookie with secure := true }
      else cookie

def parseSetCookie (header : String) (url : Url) : Option Cookie :=
  match (header.toList.splitOn ';').map String.ofList with
  | [] => none
  | nameValue :: attributes =>
    match Text.splitOnce (Text.trim nameValue) '=' with
    | none => none
    | some (name, value) =>
      if Text.trim name = "" then none
      else
        let cookie : Cookie :=
          ⟨Text.trim name, Text.trim value, url.host.getD "", "/", false, false⟩
        some (attributes.foldl Cookie.applyAttribute cookie)

def extractCookies (url : Url) (response : Response) : List Cookie :=
  let cookies := response.cookies.map fun c =>
    (⟨c.name, c.value, c.domain.getD "", c.path.getD "/", c.httpOnly, c.secure⟩ : Cookie)
  let existingNames := cookies.map (·.name)
  let setCookieHeaders :=
    (response.headers.filter fun h => h.name == "set-cookie").filterMap (·.value)
  cookies ++ setCookieHeaders.filterMap fun value =>
    (parseSetCookie value url).filter fun cookie => !existingNames.contains cookie.name

/-! ### The bounded body -/

/-- What to do when a read reaches its ceiling. -/
inductive BoundedRead where
  | abort
  | truncate
  deriving DecidableEq, Repr

def collectBody (limit : Nat) (onOverflow : BoundedRead) :
    (buf : Bytes) → List (Except WreqError Bytes) → Except DownloadError Bytes
  | buf, [] => .ok buf
  | _, .error e :: _ => .error (.ofWreq e)
  | buf, .ok chunk :: rest =>
    if limit < buf.length + chunk.length then
      match onOverflow with
      | .abort => .error (.bodyTooLarge limit)
      | .truncate => .ok (buf ++ chunk.take (limit - buf.length))
    else collectBody limit onOverflow (buf ++ chunk) rest

variable {limit : Nat} {onOverflow : BoundedRead} {buf bytes : Bytes}
  {chunks : List (Except WreqError Bytes)} {e : DownloadError}

/-- A failed read says nothing about the answer. -/
theorem collectBody_error (failed : collectBody limit onOverflow buf chunks = .error e) :
    ¬ e.OfAnswer := by
  induction chunks generalizing buf with
  | nil => cases failed
  | cons chunk rest ih =>
    cases chunk with
    | error cause =>
      cases failed
      exact DownloadError.not_ofAnswer_ofWreq cause
    | ok chunk =>
      simp only [collectBody] at failed
      split_ifs at failed
      · cases onOverflow with
        | abort =>
          cases failed
          simp [DownloadError.OfAnswer]
        | truncate => cases failed
      · exact ih failed

end Webfang.Downloader
