import Webfang.Crawler.BinaryPages
import Webfang.Downloader.WreqDownloader
import Webfang.Library.Subslice
import Webfang.Waf.ChallengeDetection

/-!
# The bytes of a saved document

The body of a binary page is decoded to a text like any other body, and the bytes of the text are
saved. They are the bytes of the body exactly when the body is one that its charset does not
change: for UTF-8, one that is UTF-8 and does not begin with a byte order mark.
-/
namespace Webfang.Crawler

open Library
open Downloader (WreqDownloader Response collectBody)
open Waf (Bytes)

/-! ### Encodings -/

/-- `encoding_rs`: the encoding of a label by its name, and the text of bytes in an encoding. -/
structure EncodingRs where
  forLabel : String → Option String
  decodeWithoutBom : String → Bytes → String

def forBom : Bytes → Option (String × Nat)
  | 0xEF :: 0xBB :: 0xBF :: _ => some ("UTF-8", 3)
  | 0xFE :: 0xFF :: _ => some ("UTF-16BE", 2)
  | 0xFF :: 0xFE :: _ => some ("UTF-16LE", 2)
  | _ => none

namespace EncodingRs

variable (crate : EncodingRs)

def encodingOf (label : String) : String := (crate.forLabel label).getD "UTF-8"

/-- `Encoding::for_label(label).unwrap_or(UTF_8).decode(bytes)`: a byte order mark overrides the
label and is removed. -/
def decode (label : String) (bytes : Bytes) : String :=
  match forBom bytes with
  | some (encoding, length) => crate.decodeWithoutBom encoding (bytes.drop length)
  | none => crate.decodeWithoutBom (crate.encodingOf label) bytes

/-- The body begins with no byte order mark, and is UTF-8 or, in another encoding, a text whose
UTF-8 it is. -/
def Preserves (label : String) (body : Bytes) : Prop :=
  ¬ Utf8.bom <+: body ∧
    if crate.encodingOf label = "UTF-8" then ∃ text, Utf8.encode text = body
    else Utf8.encode (crate.decodeWithoutBom (crate.encodingOf label) body) = body

theorem forBom_eq_none {text : String} {body : Bytes} (encoded : Utf8.encode text = body)
    (plain : ¬ Utf8.bom <+: body) : forBom body = none := by
  unfold forBom
  split
  next rest => exact absurd ⟨rest, rfl⟩ plain
  next => exact absurd encoded (Utf8.encode_ne_cons (by decide))
  next => exact absurd encoded (Utf8.encode_ne_cons (by decide))
  next => rfl

variable {crate} in
theorem encode_decode_iff (utf8 : ∀ text, crate.decodeWithoutBom "UTF-8" (Utf8.encode text) = text)
    {label : String} {body : Bytes} :
    Utf8.encode (crate.decode label body) = body ↔ crate.Preserves label body := by
  constructor
  · intro same
    have plain : ¬ Utf8.bom <+: body := by
      rintro ⟨rest, split⟩
      -- the rest of a text is a text, and it is all that is left of the body
      have marked : Utf8.encode (crate.decode label body) = String.utf8EncodeChar '\uFEFF' ++ rest :=
        same.trans split.symm
      obtain ⟨tail, encoded⟩ := Utf8.tail_of_encode marked
      have decoded : crate.decode label body = tail := by
        rw [← split, ← encoded]
        exact utf8 tail
      have lengths := congrArg List.length same
      rw [decoded, encoded, ← split, List.length_append, show Utf8.bom.length = 3 from rfl] at lengths
      omega
    refine ⟨plain, ?_⟩
    split
    next => exact ⟨_, same⟩
    next => rwa [decode, forBom_eq_none same plain] at same
  · rintro ⟨plain, kept⟩
    split at kept
    next encoding =>
      obtain ⟨text, rfl⟩ := kept
      rw [decode, forBom_eq_none rfl plain]
      dsimp only
      rw [encoding, utf8]
    next =>
      rw [decode, forBom_eq_none kept plain]
      exact kept

end EncodingRs

/-! ### The saved body -/

theorem buildPage_eq {d : WreqDownloader} {fetched : Downloader.Url} {response : Response} {body : Bytes}
    {finalUrl : String} (address : response.url = .ok finalUrl)
    (collected : collectBody d.maxPageBytes .abort [] response.body = .ok body) :
    d.buildPage fetched response = .ok {
      url := finalUrl
      html := d.decode response.charset body
      status := response.status
      headers := response.headers.foldl (fun map h =>
        map.insert (Text.toAsciiLowercase h.name) (h.value.getD "")) ∅
      cookies := Downloader.extractCookies fetched response } := by
  rw [WreqDownloader.buildPage, address, WreqDownloader.readBodyCapped, WreqDownloader.readBodyBounded,
    collected]
  rfl

theorem html_of_buildPage {d : WreqDownloader} {fetched : Downloader.Url} {response : Response}
    {page : Downloader.FetchedPage} {body : Bytes} (built : d.buildPage fetched response = .ok page)
    (collected : collectBody d.maxPageBytes .abort [] response.body = .ok body) :
    page.html = d.decode response.charset body := by
  cases address : response.url with
  | error message =>
    rw [WreqDownloader.buildPage, address] at built
    cases built
  | ok finalUrl =>
    rw [buildPage_eq address collected] at built
    cases built
    rfl

theorem body_saved_iff {crate : EncodingRs} {d : WreqDownloader} (decodes : d.decode = crate.decode)
    (utf8 : ∀ text, crate.decodeWithoutBom "UTF-8" (Utf8.encode text) = text)
    {config : SaveConfig} (documents : config.downloadDocuments = true) {hash : String → UInt64}
    {files : String → Option Bytes} {fetched : Downloader.Url} {response : Response} {p : CrawledPage}
    {body : Bytes} {document : String × Bytes} (built : d.buildPage fetched response = .ok p.page)
    (collected : collectBody d.maxPageBytes .abort [] response.body = .ok body)
    (written : p.outcome = .written) (saved : document ∈ p.saved config hash) :
    filesAfter config hash files [p] document.1 = some body ↔ crate.Preserves response.charset body := by
  rw [filesAfter_of_apart (List.pairwise_singleton ..) List.mem_cons_self saved, written]
  obtain ⟨-, name, -, rfl⟩ := (mem_saved_iff documents).mp saved
  rw [WriteOutcome.leaves, Option.some.injEq, html_of_buildPage built collected, decodes]
  exact EncodingRs.encode_decode_iff utf8

/-! A body of ASCII characters, and the first bytes of a JPEG image. -/

namespace Photo

/-- UTF-8 is the one encoding here; what is no UTF-8 is decoded with replacement characters. -/
def crate : EncodingRs where
  forLabel label := if label = "utf-8" then some "UTF-8" else none
  decodeWithoutBom _ bytes :=
    match Utf8.decode? bytes with
    | some text => text
    | none => (Utf8.decode? (Subslice.fromUtf8Lossy bytes)).getD ""

theorem crate_utf8 (text : String) : crate.decodeWithoutBom "UTF-8" (Utf8.encode text) = text := by
  simp only [crate, Utf8.decode?_encode]

def downloader : WreqDownloader where
  timeoutSecs := 10
  pinnedUa := none
  maxRetries := 3
  backoffBaseMs := 1000
  backoffMaxMs := 10000
  maxPageBytes := 50000000
  ignoreWaf := false
  decode := crate.decode
  floats := Waf.HcaptchaScript.wholeNumbers

def url : Domain.Filename.Url := ⟨"https://a.test/photo.jpg", "/photo.jpg", some "a.test"⟩

def response (body : Bytes) : Response :=
  ⟨200, .ok url.asStr, [⟨"content-type", some "image/jpeg"⟩], [], [.ok body]⟩

def photo (body : Bytes) : CrawledPage where
  url := url
  page := {
    url := url.asStr
    html := crate.decode (response body).charset body
    status := 200
    headers := (∅ : Std.ExtTreeMap String String).insert "content-type" "image/jpeg"
    cookies := [] }
  outcome := .written

def saving : SaveConfig := ⟨"out", true⟩

def jpeg : Bytes := [0xFF, 0xD8, 0xFF, 0xE0]

theorem collected {body : Bytes} (short : body.length ≤ 50000000) :
    collectBody downloader.maxPageBytes .abort [] (response body).body = .ok body := by
  have within : ¬ 50000000 < ([] : Bytes).length + body.length := by
    rw [List.length_nil]
    omega
  change collectBody 50000000 .abort [] [.ok body] = .ok body
  rw [collectBody, if_neg within]
  rfl

theorem built {body : Bytes} (short : body.length ≤ 50000000) :
    downloader.buildPage ⟨url.asStr, some "a.test"⟩ (response body) = .ok (photo body).page := by
  have lower : Text.toAsciiLowercase "content-type" = "content-type" := by decide
  have cookies : Downloader.extractCookies ⟨url.asStr, some "a.test"⟩ (response body) = [] := rfl
  rw [buildPage_eq rfl (collected short), cookies]
  simp only [response, List.foldl_cons, List.foldl_nil, lower, Option.getD_some]
  rfl

theorem saved (body : Bytes) :
    ("out/photo.jpg", Utf8.encode (photo body).page.html) ∈ (photo body).saved saving fun _ => 0 := by
  have type : contentType (photo body).page = "image/jpeg" := by simp [contentType, photo]
  have image : isBinary "image/jpeg" = true := by decide
  have untold : (photo body).page.headers["content-disposition"]? = none := by simp [photo]
  have name : (photo body).named (fun _ => 0) = some "photo.jpg" := by
    have segment : Domain.Filename.serverName (fun _ => 0) none url = some "photo.jpg" := by decide
    rw [CrawledPage.named, CrawledPage.given, untold]
    change (Domain.Filename.serverName _ none url).or _ = _
    rw [segment]
    rfl
  have success : (200 : UInt16) ≤ 200 ∧ (200 : UInt16) < 300 := by decide
  exact (mem_saved_iff rfl).mpr ⟨⟨success.1, success.2, by rw [type, image]⟩, "photo.jpg", name, rfl⟩

/-- A text is saved as it was sent. -/
theorem ascii_body_saved : ∃ p document, downloader.buildPage ⟨url.asStr, some "a.test"⟩
      (response (Utf8.encode "GIF89a")) = .ok p.page ∧ document ∈ p.saved saving (fun _ => 0) ∧
    filesAfter saving (fun _ => 0) (fun _ => none) [p] document.1 = some (Utf8.encode "GIF89a") := by
  have short : (Utf8.encode "GIF89a").length ≤ 50000000 := by decide +kernel
  refine ⟨photo (Utf8.encode "GIF89a"), _, built short, saved _, ?_⟩
  refine (body_saved_iff rfl crate_utf8 rfl (built short) (collected short) rfl (saved _)).mpr ⟨?_, ?_⟩
  · decide +kernel
  · have plain : crate.encodingOf (response (Utf8.encode "GIF89a")).charset = "UTF-8" := by decide
    rw [if_pos plain]
    exact ⟨"GIF89a", rfl⟩

/-- No text has the bytes of an image. -/
theorem jpeg_body_changed : ∃ p document, downloader.buildPage ⟨url.asStr, some "a.test"⟩ (response jpeg) =
      .ok p.page ∧ document ∈ p.saved saving (fun _ => 0) ∧
    filesAfter saving (fun _ => 0) (fun _ => none) [p] document.1 ≠ some jpeg := by
  refine ⟨photo jpeg, _, built (by decide), saved jpeg, fun kept => ?_⟩
  rw [filesAfter_of_apart (List.pairwise_singleton ..) List.mem_cons_self (saved jpeg)] at kept
  have bytes : Utf8.encode (photo jpeg).page.html = jpeg := Option.some.inj kept
  exact Utf8.encode_ne_cons (by decide) bytes

end Photo

end Webfang.Crawler
