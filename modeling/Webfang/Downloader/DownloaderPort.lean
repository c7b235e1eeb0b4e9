import Webfang.Domain.PageState

/-!
# The downloader port

`domain/downloader_port.rs`: the pages and the errors of a fetch, and the classes of the
errors. URLs are their texts.
-/
namespace Webfang.Downloader

open Domain (ErrorClass)

structure Cookie where
  name : String
  value : String
  domain : String
  path : String
  httpOnly : Bool
  secure : Bool
  deriving DecidableEq, Repr

/-- Header names are in lower case. -/
structure FetchedPage where
  url : String
  html : String
  status : UInt16
  headers : Std.ExtTreeMap String String
  cookies : List Cookie

/-- `std::io::ErrorKind`: the kinds that are told apart, and the others by name. -/
inductive IoErrorKind where
  | connectionReset
  | connectionAborted
  | brokenPipe
  | timedOut
  | unexpectedEof
  | other (name : String)
  deriving DecidableEq, Repr

inductive DownloadError where
  | network (cause : String)
  | dns (message : String)
  | tls (message : String)
  | io (kind : IoErrorKind) (message : String)
  | http (status : UInt16) (message : String)
  | wafChallenge (message : String)
  | spaDetected (message : String)
  | invalidUrl (message : String)
  | timeout (seconds : Nat)
  | internal (message : String)
  | resourceExhausted (message : String)
  | featureGated (message : String)
  | cancelled
  | bodyTooLarge (limit : Nat)
  deriving DecidableEq, Repr

def isTransientIo : IoErrorKind → Bool
  | .connectionReset | .connectionAborted | .brokenPipe | .timedOut | .unexpectedEof => true
  | .other _ => false

def DownloadError.classify : DownloadError → ErrorClass
  | .io kind _ => if isTransientIo kind then .transientRetriable else .internalFatal
  | .dns _ | .tls _ => .permanentFatal
  | .timeout _ => .transientBackoff
  | .http status _ =>
    if 500 ≤ status ∧ status ≤ 599 then .transientRetriable
    else if status = 429 then .transientBackoff
    else .permanentFatal
  | .wafChallenge _ | .spaDetected _ | .invalidUrl _ => .permanentFatal
  | .network _ | .internal _ | .resourceExhausted _ => .internalFatal
  | .featureGated _ => .permanentFatal
  | .cancelled => .internalFatal
  | .bodyTooLarge _ => .permanentFatal

abbrev Fetched := Except DownloadError FetchedPage

end Webfang.Downloader
