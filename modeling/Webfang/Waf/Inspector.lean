import Webfang.Library.PatternScan
import Webfang.Library.Text

/-!
# The WAF inspector

`infrastructure/http/waf_engine.rs`: signatures of challenge pages and of their vendors, searched
in one pass over a response body, and the verdict from what was found. Bodies are their UTF-8
bytes; the log lines are left out.
-/
namespace Webfang.Waf

open Library

/-! ### Data -/

inductive WafTier where
  | challenge
  | fingerprint
  deriving DecidableEq, Repr

inductive EvidenceSource where
  | body
  | header
  deriving DecidableEq, Repr

structure WafEvidence where
  provider : String
  tier : WafTier
  matchedPattern : String
  source : EvidenceSource
  deriving DecidableEq, Repr

structure WafVerdict where
  isBlocked : Bool
  evidences : List WafEvidence
  deriving DecidableEq, Repr

def WafVerdict.clean : WafVerdict := ⟨false, []⟩

def WafTier.labelEs : WafTier → String
  | .challenge => "desafío"
  | .fingerprint => "huella"

def WafVerdict.evidenceChain (verdict : WafVerdict) : String :=
  if verdict.evidences = [] then "WAF desconocido"
  else
    "; ".intercalate (verdict.evidences.map fun e =>
      e.provider ++ " (patrón: " ++ e.matchedPattern ++ ", tier: " ++ e.tier.labelEs ++ ")")

/-- Header names are in lower case. The default context knows nothing of the response. -/
structure InspectionContext where
  status : Option UInt16
  contentType : Option String
  headers : Std.ExtTreeMap String String
  ignoreWaf : Bool

def InspectionContext.default : InspectionContext := ⟨none, none, ∅, false⟩

def InspectionContext.fromLowercaseHeaders (status : UInt16)
    (headers : Std.ExtTreeMap String String) (ignoreWaf : Bool) : InspectionContext :=
  ⟨some status, headers["content-type"]?, headers, ignoreWaf⟩

inductive BoundaryMode where
  | bare
  | exempt
  | phrase
  deriving DecidableEq, Repr

structure Signature where
  pattern : String
  provider : String
  tier : WafTier
  boundary : BoundaryMode
  deriving DecidableEq, Repr

abbrev Bytes := List UInt8

def bytes (text : String) : Bytes := text.toUTF8.toList

def Signature.bytes (sig : Signature) : Bytes := Waf.bytes sig.pattern

def wafControlHeaders : List (String × String) :=
  [("x-datadome-response", "DataDome"),
    ("cf-mitigated", "Cloudflare"),
    ("x-akamai-edge-auth", "Akamai")]

def wafBodySignatures : List Signature := [
  -- Cloudflare
  ⟨"cf-turnstile", "Cloudflare Turnstile", .challenge, .phrase⟩,
  ⟨"challenge-platform", "Cloudflare JS Challenge", .challenge, .phrase⟩,
  ⟨"Just a moment...", "Cloudflare", .challenge, .phrase⟩,
  ⟨"Checking your browser", "Cloudflare", .fingerprint, .phrase⟩,
  ⟨"__cf_chl_f_tk", "Cloudflare", .challenge, .exempt⟩,
  ⟨"cf-browser-verification", "Cloudflare", .challenge, .phrase⟩,
  ⟨"_cf_chl_opt", "Cloudflare", .challenge, .phrase⟩,
  ⟨"cloudflare", "Cloudflare", .fingerprint, .bare⟩,
  -- Google reCAPTCHA
  ⟨"g-recaptcha", "reCAPTCHA", .challenge, .phrase⟩,
  ⟨"recaptcha/api.js", "reCAPTCHA", .challenge, .phrase⟩,
  ⟨"grecaptcha.execute", "reCAPTCHA", .challenge, .phrase⟩,
  ⟨"recaptcha.net", "reCAPTCHA", .fingerprint, .phrase⟩,
  ⟨"recaptcha Enterprise", "reCAPTCHA", .challenge, .phrase⟩,
  -- hCaptcha
  ⟨"hcaptcha.com", "hCaptcha", .fingerprint, .phrase⟩,
  ⟨"h-captcha", "hCaptcha", .challenge, .phrase⟩,
  ⟨"hcaptcha-api", "hCaptcha", .challenge, .phrase⟩,
  ⟨"hcaptcha.js", "hCaptcha", .challenge, .phrase⟩,
  ⟨"hcaptcha", "hCaptcha", .fingerprint, .bare⟩,
  ⟨"h-captcha-response", "hCaptcha", .challenge, .phrase⟩,
  -- DataDome
  ⟨"datadome", "DataDome", .fingerprint, .bare⟩,
  ⟨"dd-captcha", "DataDome", .challenge, .phrase⟩,
  ⟨"datadome.co", "DataDome", .fingerprint, .phrase⟩,
  -- PerimeterX / HUMAN Security
  ⟨"perimeterx", "PerimeterX", .fingerprint, .bare⟩,
  ⟨"_pxCaptcha", "PerimeterX", .challenge, .exempt⟩,
  ⟨"px-captcha", "PerimeterX", .challenge, .phrase⟩,
  ⟨"perimeterx.net", "PerimeterX", .fingerprint, .phrase⟩,
  ⟨"human-security", "HUMAN", .fingerprint, .phrase⟩,
  ⟨"px-init", "PerimeterX", .fingerprint, .phrase⟩,
  -- Akamai Bot Manager
  ⟨"_abck", "Akamai Bot Manager", .fingerprint, .exempt⟩,
  ⟨"SensorData", "Akamai Bot Manager", .fingerprint, .phrase⟩,
  ⟨"akamai-bot-manager", "Akamai Bot Manager", .fingerprint, .phrase⟩,
  ⟨"akamai.net", "Akamai", .fingerprint, .phrase⟩,
  ⟨"akamai", "Akamai", .fingerprint, .bare⟩,
  -- Imperva / Incapsula
  ⟨"imperva", "Imperva", .fingerprint, .bare⟩,
  ⟨"incapsula", "Imperva", .fingerprint, .phrase⟩,
  ⟨"_Incapsula_Resource", "Imperva", .fingerprint, .phrase⟩,
  ⟨"visid_incap", "Imperva Incapsula", .fingerprint, .exempt⟩,
  ⟨"incap_ses", "Imperva Incapsula", .fingerprint, .exempt⟩,
  -- Sucuri
  ⟨"sucuri", "Sucuri", .fingerprint, .bare⟩,
  ⟨"sucuri.net", "Sucuri", .fingerprint, .phrase⟩,
  -- F5
  ⟨"BIGipServer", "F5", .fingerprint, .phrase⟩,
  -- Generic challenge prose / scripts
  ⟨"Please verify you are a human", "Generic Challenge", .challenge, .phrase⟩,
  ⟨"verify you are human", "Generic Challenge", .challenge, .phrase⟩,
  ⟨"checking your browser", "Browser Verification", .challenge, .phrase⟩,
  ⟨"captcha-delivery", "Challenge Delivery", .challenge, .phrase⟩,
  ⟨"__js_challenge__", "JS Challenge", .challenge, .phrase⟩,
  ⟨"challenge.js", "Generic Challenge", .challenge, .phrase⟩,
  ⟨"captcha.js", "Generic Challenge", .challenge, .phrase⟩,
  ⟨"challenge-running", "Cloudflare", .challenge, .phrase⟩,
  ⟨"data-sitekey", "Generic Captcha", .fingerprint, .phrase⟩,
  -- AWS WAF
  ⟨"awsWafCookieDomainList", "AWS WAF", .challenge, .phrase⟩,
  ⟨"AwsWafIntegration", "AWS WAF", .challenge, .phrase⟩,
  ⟨"gokuProps", "AWS WAF", .challenge, .phrase⟩,
  ⟨"aws-waf-token", "AWS WAF", .challenge, .phrase⟩]

def suspiciousSizeThreshold : Nat := 100000

def silentChallengeMaxBytes : Nat := 1500

def silentChallengeMinScripts : Nat := 5

def maxEvidencePerBody : Nat := 64

/-! ### One match -/

abbrev SigMatch := PatternScan.Match Signature

def isAsciiAlphanumeric (b : UInt8) : Bool :=
  (48 ≤ b && b ≤ 57) || (65 ≤ b && b ≤ 90) || (97 ≤ b && b ≤ 122)

def isIdentChar (b : UInt8) : Bool := isAsciiAlphanumeric b || b == 95 || b == 36

/-- `u8::is_ascii_whitespace`: no vertical tab. -/
def isWs (b : UInt8) : Bool := b == 32 || b == 9 || b == 10 || b == 12 || b == 13

/-- The last position before `i` whose byte is not to be skipped. -/
def skipBack (body : Bytes) (skip : UInt8 → Bool) : (i : Nat) → Option Nat
  | 0 => none
  | i + 1 =>
    match body[i]? with
    | some b => if skip b then skipBack body skip i else some i
    | none => none

/-- A quoted value under a quoted key: `"key": "<match>"`. -/
def isConfigStringMatch (body : Bytes) (mat : SigMatch) : Bool :=
  let quote : UInt8 := 34
  let colonByte : UInt8 := 58
  if mat.start = 0 ∨ body[mat.start - 1]? ≠ some quote ∨ body[mat.stop]? ≠ some quote then false
  else
    match skipBack body isWs (mat.start - 1) with
    | none => false
    | some colon =>
      if body[colon]? ≠ some colonByte then false
      else
        match skipBack body isWs colon with
        | none => false
        | some keyClose =>
          if body[keyClose]? ≠ some quote then false
          else
            match skipBack body isIdentChar keyClose with
            | none => false
            | some keyOpen => body[keyOpen]? == some quote && keyOpen + 1 < keyClose

/-- Whether the match may stand next to this byte. -/
def isBoundary (adjacent : Option UInt8) : Bool :=
  adjacent.all fun b => !(isAsciiAlphanumeric b || b == 95)

def passesBoundaryFilter (body : Bytes) (mat : SigMatch) : Bool :=
  if mat.pattern.tier ≠ .fingerprint ∨ mat.pattern.boundary ≠ .bare then true
  else
    (mat.start = 0 || isBoundary body[mat.start - 1]?) && isBoundary body[mat.stop]?

/-! ### Evidence -/

/-- `WAF_AC.find_iter(body)`. -/
def findIter (body : Bytes) : List SigMatch :=
  PatternScan.findIter wafBodySignatures Signature.bytes body

def bodyEvidence (sig : Signature) : WafEvidence := ⟨sig.provider, sig.tier, sig.pattern, .body⟩

def collectMatches (body : Bytes) (evidences : List WafEvidence) (hasGenuineFingerprint : Bool) :
    List SigMatch → List WafEvidence × Bool
  | [] => (evidences, hasGenuineFingerprint)
  | mat :: rest =>
    if !passesBoundaryFilter body mat then
      collectMatches body evidences hasGenuineFingerprint rest
    else
      match mat.pattern.tier with
      | .challenge => ([bodyEvidence mat.pattern], true)
      | .fingerprint =>
        let genuine := hasGenuineFingerprint || !isConfigStringMatch body mat
        if evidences.length < maxEvidencePerBody then
          collectMatches body (evidences ++ [bodyEvidence mat.pattern]) genuine rest
        else collectMatches body evidences genuine rest

def collectBodyEvidence (body : Bytes) : List WafEvidence × Bool :=
  collectMatches body [] false (findIter body)

/-- The part before the first `;`, trimmed and in lower case. -/
def mimeType (raw : String) : String :=
  Text.toAsciiLowercase (Text.trim (String.ofList (raw.toList.takeWhile (· ≠ ';'))))

def endsWith (text suffix : String) : Bool := suffix.toList.isSuffixOf text.toList

def startsWith (text front : String) : Bool := front.toList.isPrefixOf text.toList

def shouldScanBody (ctx : InspectionContext) : Bool :=
  match ctx.contentType with
  | none => true
  | some raw =>
    let mime := mimeType raw
    if mime = "application/xhtml+xml" then true
    else
      let isJson := endsWith mime "+json" || mime == "application/json" || mime == "text/json"
      let isXml := endsWith mime "+xml" || mime == "application/xml" || mime == "text/xml"
      if isJson || isXml then false
      else if startsWith mime "image/" || startsWith mime "font/" then false
      else if mime = "application/wasm" ∨ mime = "application/javascript" then false
      else true

def collectHeaderEvidence (headers : Std.ExtTreeMap String String) : List WafEvidence :=
  (wafControlHeaders.filter fun (name, _) => headers.contains name).map fun (name, provider) =>
    ⟨provider, .fingerprint, name, .header⟩

def isT2BlockingStatus : Option UInt16 → Bool
  | some status => status == 403 || status == 429 || status == 503 || (520 ≤ status && status ≤ 529)
  | none => false

def is5xx : Option UInt16 → Bool
  | some status => 500 ≤ status && status ≤ 599
  | none => false

def isHtmlContentType (contentType : String) : Bool :=
  let mime := mimeType contentType
  mime == "text/html" || mime == "application/xhtml+xml"

/-- The floating point operations of the entropy. -/
structure Floats where
  F64 : Type
  zero : F64
  ofNat : Nat → F64
  sub : F64 → F64 → F64
  mul : F64 → F64 → F64
  div : F64 → F64 → F64
  log2 : F64 → F64
  gt : F64 → F64 → Bool
  entropyThreshold : F64

namespace Floats

variable (floats : Floats)

def calculateEntropy (body : Bytes) : floats.F64 :=
  if body = [] then floats.zero
  else
    let len := floats.ofNat body.length
    (List.range 256).foldl (fun entropy b =>
      let count := body.count b.toUInt8
      if count > 0 then
        let p := floats.div (floats.ofNat count) len
        floats.sub entropy (floats.mul p (floats.log2 p))
      else entropy) floats.zero

def highEntropy (body : Bytes) : Bool :=
  suspiciousSizeThreshold < body.length &&
    floats.gt (floats.calculateEntropy body) floats.entropyThreshold

def scriptCount (body : Bytes) : Nat :=
  (PatternScan.findIter [()] (fun _ => bytes "<script") body).length

/-- Rule (b): a tiny body dense with script tags. -/
def scriptDense (body : Bytes) : Bool :=
  body.length < silentChallengeMaxBytes && silentChallengeMinScripts < scriptCount body

def entropyEvidence (body : Bytes) (ctx : InspectionContext) (hasGenuineFingerprint : Bool) :
    Option WafEvidence :=
  let correlated := isT2BlockingStatus ctx.status
  if floats.highEntropy body && (correlated || hasGenuineFingerprint) then
    some ⟨"Obfuscated WAF", .challenge, "high-entropy body", .body⟩
  else if scriptDense body &&
      (correlated || (ctx.status == some 200 && ctx.contentType.any isHtmlContentType)) then
    some ⟨"Silent Challenge", .challenge, "script-density", .body⟩
  else none

end Floats

/-! ### The verdict -/

/-- Whether one piece of evidence blocks. A vendor's name in the body of a 5xx does not. -/
def blocks (ctx : InspectionContext) (ev : WafEvidence) : Bool :=
  match ev.tier with
  | .challenge => true
  | .fingerprint =>
    isT2BlockingStatus ctx.status && !(is5xx ctx.status && ev.source == .body)

def decide (evidences : List WafEvidence) (ctx : InspectionContext) : Bool :=
  evidences.any (blocks ctx)

def inspect (floats : Floats) (body : Bytes) (ctx : InspectionContext) : WafVerdict :=
  if ctx.ignoreWaf then .clean
  else
    let scanBody := shouldScanBody ctx
    let (bodyEvidences, genuine) := if scanBody then collectBodyEvidence body else ([], false)
    let headerEvidences := collectHeaderEvidence ctx.headers
    let hasGenuineFingerprint := genuine || !headerEvidences.isEmpty
    let entropyEvidences :=
      if scanBody then (floats.entropyEvidence body ctx hasGenuineFingerprint).toList else []
    let evidences := bodyEvidences ++ headerEvidences ++ entropyEvidences
    ⟨decide evidences ctx, evidences⟩

end Webfang.Waf
