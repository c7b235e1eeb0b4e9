import Webfang.Domain.Filename
import Webfang.Downloader.DownloaderPort
import Webfang.Library.Utf8
import Webfang.Library.LastWriter
import Webfang.Waf.Inspector

/-!
# Binary pages

The binary branch of `scrape_single_url_inner` in `application/crawler/discovery.rs` and the
writer of `infrastructure/crawler/binary_writer.rs`. All documents of a crawl go into one
directory, and a write replaces what is there. A document that is reported as saved is still in
its file at the end of the crawl exactly when the pages are named apart and the writes go through.
-/
namespace Webfang.Crawler

open Library
open Domain.Filename (Url FallbackName)
open Downloader (FetchedPage)
open Waf (Bytes)

/-! ### The binary branch -/

structure SaveConfig where
  outputDir : String
  downloadDocuments : Bool

inductive ScrapeError where
  | http (status : UInt16) (url : String)
  | invalidUrl (message : String)
  deriving DecidableEq, Repr

structure BinaryContent where
  title : String
  content : String
  deriving DecidableEq, Repr

/-- The document that is handed to the writer, and the result of the page. -/
structure BinaryScrape where
  saved : Option (String × Bytes)
  result : Except ScrapeError BinaryContent

inductive Scraped where
  | failed (e : ScrapeError)
  | binary (scrape : BinaryScrape)
  /-- The rest of the function. -/
  | text (html : String)
  | panicked

def isBinary (contentType : String) : Bool :=
  Text.contains contentType "application/pdf"
    || Text.contains contentType "application/octet-stream"
    || Text.contains contentType "application/zip"
    || Text.contains contentType "application/x-"
    || Text.contains contentType "image/"
    || Text.contains contentType "audio/"
    || Text.contains contentType "video/"

def contentType (page : FetchedPage) : String := page.headers["content-type"]?.getD ""

def outputPath (config : SaveConfig) (filename : String) : String := config.outputDir ++ "/" ++ filename

/-- The scheme of a parsed URL ends at the first colon. -/
def scheme (url : Url) : String := String.ofList (url.asStr.toList.takeWhile (· ≠ ':'))

/-- The result has no assets: none are extracted from the empty text. -/
def binaryResult (url : Url) (contentType : String) (saved : Option (String × Bytes)) :
    Except ScrapeError BinaryContent :=
  let content := match saved with
    | some (path, _) => "[Binary file saved: " ++ path ++ "] " ++ url.asStr
    | none => "[Binary content: " ++ contentType ++ "] " ++ url.asStr
  match url.hostStr with
  | none => .error (.invalidUrl ("URL missing host: " ++ url.asStr))
  | some host =>
    if scheme url = "http" ∨ scheme url = "https" then .ok ⟨host, content⟩
    else .error (.invalidUrl ("Scheme '" ++ scheme url ++ "' no soportado. Solo http:// y https://"))

def scrapeSingleUrlInner (config : SaveConfig) (hash : String → UInt64) (url : Url) (page : FetchedPage) :
    Scraped :=
  if page.status < 200 ∨ 300 ≤ page.status then .failed (.http page.status url.asStr)
  else if !isBinary (contentType page) then .text page.html
  else if config.downloadDocuments then
    match Domain.Filename.deriveFilenameFromContentDisposition hash page.headers["content-disposition"]? url
        (contentType page) with
    | none => .panicked
    | some filename =>
      let saved := some (outputPath config filename, Utf8.encode page.html)
      .binary ⟨saved, binaryResult url (contentType page) saved⟩
  else .binary ⟨none, binaryResult url (contentType page) none⟩

/-! ### Writes -/

/-- What `write_bytes` comes to; a write that fails may leave anything in the file. -/
inductive WriteOutcome where
  | written
  | failed (left : Option Bytes)
  deriving DecidableEq, Repr

def WriteOutcome.leaves (bytes : Bytes) : WriteOutcome → Option Bytes
  | .written => some bytes
  | .failed left => left

/-- A page of a crawl, with what the file system makes of its write. -/
structure CrawledPage where
  url : Url
  page : FetchedPage
  outcome : WriteOutcome

namespace CrawledPage

variable (config : SaveConfig) (hash : String → UInt64) (p : CrawledPage)

def saved : Option (String × Bytes) :=
  match scrapeSingleUrlInner config hash p.url p.page with
  | .binary scrape => scrape.saved
  | _ => none

/-- The document named in a result: a failed write is only logged. -/
def reported : Option (String × Bytes) :=
  match scrapeSingleUrlInner config hash p.url p.page with
  | .binary ⟨some document, .ok _⟩ => some document
  | _ => none

def write : Option (String × Option Bytes) :=
  (p.saved config hash).map fun document => (document.1, p.outcome.leaves document.2)

end CrawledPage

/-- The files after the pages have been written, in the order of the list. -/
def filesAfter (config : SaveConfig) (hash : String → UInt64) (files : String → Option Bytes)
    (pages : List CrawledPage) : String → Option Bytes :=
  WriteList.writeAll files (pages.filterMap (CrawledPage.write config hash))

/-- Every document reported as saved is in its file at the end, and no two pages are written to
one path. -/
structure AllKept (config : SaveConfig) (hash : String → UInt64) (files : String → Option Bytes)
    (pages : List CrawledPage) : Prop where
  kept : ∀ p ∈ pages, ∀ document ∈ p.reported config hash,
    filesAfter config hash files pages document.1 = some document.2
  apart : pages.Pairwise fun p q => ∀ document ∈ p.saved config hash, ∀ other ∈ q.saved config hash,
    document.1 ≠ other.1

/-! ### Names -/

namespace CrawledPage

variable (hash : String → UInt64) (p q : CrawledPage)

/-- The page is answered with success and a binary content type. -/
def IsDocument : Prop :=
  200 ≤ p.page.status ∧ p.page.status < 300 ∧ isBinary (contentType p.page) = true

def IsCrawlable : Prop := p.url.hostStr.isSome ∧ (scheme p.url = "http" ∨ scheme p.url = "https")

def given : Option String := Domain.Filename.serverName hash p.page.headers["content-disposition"]? p.url

def parts : Option FallbackName := Domain.Filename.fallbackName hash p.url (contentType p.page)

def named : Option String := (p.given hash).or ((p.parts hash).map FallbackName.filename)

/-- Two documents get one name: from their servers, from the same parts, or one from its server
and the other from parts that spell it. -/
def SameName : Prop :=
  match p.given hash, q.given hash with
  | some name, some name' => name = name'
  | none, none => ∃ name, p.parts hash = some name ∧ q.parts hash = some name
  | some name, none => (q.parts hash).map FallbackName.filename = some name
  | none, some name => (p.parts hash).map FallbackName.filename = some name

end CrawledPage

/-- No two documents get one name, and the write of each one that has a name leaves it in its
file. -/
structure NamedApart (hash : String → UInt64) (pages : List CrawledPage) : Prop where
  names : pages.Pairwise fun p q => p.IsDocument → q.IsDocument → ¬p.SameName hash q
  writes : ∀ p ∈ pages, p.IsDocument → p.IsCrawlable → (p.given hash).isSome ∨ (p.parts hash).isSome →
    p.outcome.leaves (Utf8.encode p.page.html) = some (Utf8.encode p.page.html)

variable {config : SaveConfig} {hash : String → UInt64} {files : String → Option Bytes}
  {pages : List CrawledPage} {p q : CrawledPage}

theorem derive_eq : Domain.Filename.deriveFilenameFromContentDisposition hash
    p.page.headers["content-disposition"]? p.url (contentType p.page) =
      p.named hash := by
  unfold Domain.Filename.deriveFilenameFromContentDisposition CrawledPage.named CrawledPage.given
    CrawledPage.parts
  cases Domain.Filename.serverName hash p.page.headers["content-disposition"]? p.url <;> rfl

theorem binaryResult_isOk {saved : Option (String × Bytes)} :
    (∃ content, binaryResult p.url (contentType p.page) saved = .ok content) ↔ p.IsCrawlable := by
  unfold binaryResult CrawledPage.IsCrawlable
  cases p.url.hostStr with
  | none => simp
  | some host =>
    dsimp only
    split <;> simp [*]

/-- The binary branch is taken for a document that gets a name. -/
theorem scraped_iff (documents : config.downloadDocuments = true) {scrape : BinaryScrape} :
    scrapeSingleUrlInner config hash p.url p.page = .binary scrape ↔ p.IsDocument ∧
      ∃ name, p.named hash = some name ∧
        scrape = ⟨some (outputPath config name, Utf8.encode p.page.html),
          binaryResult p.url (contentType p.page)
            (some (outputPath config name, Utf8.encode p.page.html))⟩ := by
  unfold scrapeSingleUrlInner
  rw [derive_eq, if_pos documents]
  by_cases document : p.IsDocument
  · obtain ⟨least, most, binary⟩ := document
    rw [if_neg (by simp [UInt16.not_lt, UInt16.not_le, least, most]), if_neg (by simp [binary])]
    cases p.named hash with
    | none => simp
    | some name =>
      simp only [Scraped.binary.injEq, Option.some.injEq, exists_eq_left']
      exact ⟨fun same => ⟨⟨least, most, binary⟩, same.symm⟩, fun same => same.2.symm⟩
  · refine iff_of_false (fun taken => document ?_) fun taken => document taken.1
    split at taken
    next => cases taken
    next success =>
      split at taken
      next => cases taken
      next binary =>
        rw [not_or, UInt16.not_lt, UInt16.not_le] at success
        exact ⟨success.1, success.2, by simpa using binary⟩

theorem mem_saved_iff (documents : config.downloadDocuments = true) {document : String × Bytes} :
    document ∈ p.saved config hash ↔ p.IsDocument ∧
      ∃ name, p.named hash = some name ∧
        document = (outputPath config name, Utf8.encode p.page.html) := by
  unfold CrawledPage.saved
  constructor
  · intro member
    split at member
    next scrape scraped =>
      obtain ⟨binary, name, named, rfl⟩ := (scraped_iff documents).mp scraped
      cases member
      exact ⟨binary, name, named, rfl⟩
    next => cases member
  · rintro ⟨binary, name, named, rfl⟩
    rw [(scraped_iff documents).mpr ⟨binary, name, named, rfl⟩]
    rfl

theorem mem_reported_iff (documents : config.downloadDocuments = true) {document : String × Bytes} :
    document ∈ p.reported config hash ↔ document ∈ p.saved config hash ∧ p.IsCrawlable := by
  rw [mem_saved_iff documents]
  unfold CrawledPage.reported
  constructor
  · intro member
    split at member
    next document' content scraped =>
      obtain ⟨binary, name, named, same⟩ := (scraped_iff documents).mp scraped
      cases member
      obtain ⟨saved, result⟩ := BinaryScrape.mk.inj same
      exact ⟨⟨binary, name, named, Option.some.inj saved⟩, binaryResult_isOk.mp ⟨content, result.symm⟩⟩
    next => cases member
  · rintro ⟨⟨binary, name, named, rfl⟩, crawlable⟩
    obtain ⟨content, result⟩ := binaryResult_isOk.mpr crawlable
    rw [(scraped_iff documents).mpr ⟨binary, name, named, rfl⟩, result]
    rfl

theorem sameName_iff :
    p.SameName hash q ↔ ∃ name, p.named hash = some name ∧ q.named hash = some name := by
  unfold CrawledPage.SameName CrawledPage.named
  cases p.given hash with
  | some server =>
    cases q.given hash with
    | some server' => simp [eq_comm]
    | none => simp
  | none =>
    cases q.given hash with
    | some server' => simp
    | none =>
      simp only [Option.none_or, Option.map_eq_some_iff]
      constructor
      · rintro ⟨parts, here, there⟩
        exact ⟨parts.filename, ⟨parts, here, rfl⟩, ⟨parts, there, rfl⟩⟩
      · rintro ⟨name, ⟨parts, here, spelled⟩, parts', there, spelled'⟩
        have equal := Domain.Filename.fallbackName_filename_inj here there (spelled.trans spelled'.symm)
        exact ⟨parts, here, by rw [there, equal]⟩

/-! ### The files at the end -/

theorem write_eq_some {slot : String × Option Bytes} : p.write config hash = some slot ↔
    ∃ document ∈ p.saved config hash, slot = (document.1, p.outcome.leaves document.2) := by
  unfold CrawledPage.write
  rw [Option.map_eq_some_iff]
  exact ⟨fun ⟨document, saved, same⟩ => ⟨document, saved, same.symm⟩,
    fun ⟨document, saved, same⟩ => ⟨document, saved, same.symm⟩⟩

/-- With one path for each page, a file ends as the write of its page left it. -/
theorem filesAfter_of_apart (apart : pages.Pairwise fun p q => ∀ document ∈ p.saved config hash,
      ∀ other ∈ q.saved config hash, document.1 ≠ other.1) (member : p ∈ pages)
    {document : String × Bytes} (saved : document ∈ p.saved config hash) :
    filesAfter config hash files pages document.1 = p.outcome.leaves document.2 := by
  have distinct : ((pages.filterMap (CrawledPage.write config hash)).map Prod.fst).Nodup := by
    rw [List.Nodup, List.pairwise_map, List.pairwise_filterMap]
    refine apart.imp fun {first second} separate slot written slot' written' => ?_
    obtain ⟨here, saved, rfl⟩ := write_eq_some.mp written
    obtain ⟨there, saved', rfl⟩ := write_eq_some.mp written'
    exact separate here saved there saved'
  have listed : (document.1, p.outcome.leaves document.2) ∈ pages.filterMap (CrawledPage.write config hash) :=
    List.mem_filterMap.mpr ⟨p, member, write_eq_some.mpr ⟨document, saved, rfl⟩⟩
  exact WriteList.writeAll_of_mem distinct listed

theorem outputPath_inj {name name' : String} (same : outputPath config name = outputPath config name') :
    name = name' := by
  have chars := congrArg String.toList same
  simp only [outputPath, String.toList_append] at chars
  exact String.toList_inj.mp (List.append_cancel_left chars)

theorem paths_apart_iff (documents : config.downloadDocuments = true) :
    (∀ document ∈ p.saved config hash, ∀ other ∈ q.saved config hash, document.1 ≠ other.1) ↔
      (p.IsDocument → q.IsDocument → ¬p.SameName hash q) := by
  simp only [mem_saved_iff documents]
  constructor
  · intro apart binary binary' same
    obtain ⟨name, named, named'⟩ := sameName_iff.mp same
    exact apart _ ⟨binary, name, named, rfl⟩ _ ⟨binary', name, named', rfl⟩ rfl
  · rintro names _ ⟨binary, name, named, rfl⟩ _ ⟨binary', name', named', rfl⟩ same
    have equal : name = name' := outputPath_inj same
    exact names binary binary' (sameName_iff.mpr ⟨name, named, by rw [named', equal]⟩)

/-- Every reported document is kept, each under a path of its own, exactly when the pages are
named apart. -/
theorem documents_kept_iff (documents : config.downloadDocuments = true) (hash : String → UInt64)
    (files : String → Option Bytes) (pages : List CrawledPage) :
    AllKept config hash files pages ↔ NamedApart hash pages := by
  have named {p : CrawledPage} (given : (p.given hash).isSome ∨ (p.parts hash).isSome) :
      ∃ name, p.named hash = some name := by
    unfold CrawledPage.named
    cases server : p.given hash with
    | some name => exact ⟨name, rfl⟩
    | none =>
      obtain ⟨parts, there⟩ := Option.isSome_iff_exists.mp (given.resolve_left (by simp [server]))
      exact ⟨parts.filename, by rw [there]; rfl⟩
  constructor
  · intro all
    refine ⟨all.apart.imp fun separate => (paths_apart_iff documents).mp separate, ?_⟩
    intro p member binary crawlable given
    obtain ⟨name, named⟩ := named given
    have saved := (mem_saved_iff documents).mpr ⟨binary, name, named, rfl⟩
    rw [← filesAfter_of_apart all.apart member saved]
    exact all.kept p member _ ((mem_reported_iff documents).mpr ⟨saved, crawlable⟩)
  · intro apart
    have separate : pages.Pairwise fun p q => ∀ document ∈ p.saved config hash,
        ∀ other ∈ q.saved config hash, document.1 ≠ other.1 :=
      apart.names.imp fun names => (paths_apart_iff documents).mpr names
    refine ⟨fun p member document reported => ?_, separate⟩
    obtain ⟨saved, crawlable⟩ := (mem_reported_iff documents).mp reported
    rw [filesAfter_of_apart separate member saved]
    obtain ⟨binary, name, named, rfl⟩ := (mem_saved_iff documents).mp saved
    refine apart.writes p member binary crawlable ?_
    -- a page that is saved was named by its server or from its parts
    unfold CrawledPage.named at named
    cases server : p.given hash with
    | some name => exact .inl rfl
    | none =>
      rw [server, Option.none_or] at named
      obtain ⟨parts, there, -⟩ := Option.map_eq_some_iff.mp named
      exact .inr (by rw [there]; rfl)

/-! Two pages with one last segment, and two with different ones. -/

namespace Reports

def page (path body : String) : CrawledPage where
  url := ⟨"https://a.test" ++ path, path, some "a.test"⟩
  page := ⟨"https://a.test" ++ path, body, 200, .ofList [("content-type", "application/pdf")], []⟩
  outcome := .written

def saving : SaveConfig := ⟨"out", true⟩

def report : CrawledPage := page "/x/report.pdf" "first"

def annex : CrawledPage := page "/x/annex.pdf" "second"

def otherReport : CrawledPage := page "/y/report.pdf" "second"

theorem apart_kept : ([report, annex].map fun p => p.reported saving fun _ => 0) =
      [some ("out/report.pdf", Utf8.encode "first"), some ("out/annex.pdf", Utf8.encode "second")] ∧
    AllKept saving (fun _ => 0) (fun _ => none) [report, annex] := by
  refine ⟨by decide +kernel, (documents_kept_iff rfl _ _ _).mpr ⟨?_, ?_⟩⟩
  · have first : report.named (fun _ => 0) = some "report.pdf" := by decide
    have second : annex.named (fun _ => 0) = some "annex.pdf" := by decide
    refine List.pairwise_pair.mpr fun _ _ same => ?_
    obtain ⟨name, here, there⟩ := sameName_iff.mp same
    rw [first] at here
    rw [second, ← here] at there
    exact absurd there (by decide)
  · intro p member _ _ _
    rcases List.mem_pair.mp member with rfl | rfl <;> rfl

theorem clashing_lost : ([report, otherReport].map fun p => p.url.asStr).Nodup ∧
    ([report, otherReport].map fun p => p.reported saving fun _ => 0) =
      [some ("out/report.pdf", Utf8.encode "first"), some ("out/report.pdf", Utf8.encode "second")] ∧
    ¬AllKept saving (fun _ => 0) (fun _ => none) [report, otherReport] := by
  refine ⟨by decide +kernel, by decide +kernel, fun all => ?_⟩
  have first : report.saved saving (fun _ => 0) = some ("out/report.pdf", Utf8.encode "first") := by
    decide +kernel
  have second : otherReport.saved saving (fun _ => 0) = some ("out/report.pdf", Utf8.encode "second") := by
    decide +kernel
  exact List.pairwise_pair.mp all.apart _ first _ second rfl

end Reports

end Webfang.Crawler
