import Webfang.Domain.UrlValidation
import Webfang.Library.Json

/-!
# Scraped content

The scraper's result and the document chunk an exporter takes (`domain/entities/content.rs`),
with the excerpt repair of `domain/excerpt_repair.rs`. The third-party crates of the export
path are parameters. Embeddings are absent: the conversion from a scraped page sets none.
-/
namespace Webfang.Domain

open Library

/-- The crates the export path calls: `url`, `serde_json`, `sha2` and `regex`. -/
structure ExportCrates where
  urls : UrlCrates
  hostStr : urls.Url → Option String
  parseError : String → String
  fromStr : String → Option Json
  toString : Json → String
  sha256Hex : String → String
  /-- `Regex::new(pattern).replace_all(text, |_| replacement)`. -/
  replaceAll : (pattern text replacement : String) → String

/-- The order in which a `HashMap` iterates over its entries: any. -/
structure HashOrder where
  arrange : List (String × String) → List (String × String)
  perm : ∀ entries, (arrange entries).Perm entries

def HashOrder.insertion : HashOrder := ⟨id, fun _ => .rfl⟩

/-- The fields the export path reads. -/
structure ScrapedContent where
  title : String
  content : String
  url : String
  excerpt : Option String
  author : Option String
  date : Option String
  /-- `to_traceparent()` of the correlation id. -/
  correlationId : Option String

/-- What a chunk takes from outside: its UUID, its creation time as `to_rfc3339` and as
`serde` render it, and the iteration order of its map. -/
structure ChunkStamp where
  id : String
  rfc3339 : String
  serialized : String
  order : HashOrder

structure DocumentChunk where
  id : String
  url : String
  title : String
  content : String
  /-- Distinct keys, in iteration order. -/
  metadata : List (String × String)
  timestampRfc3339 : String
  timestamp : String
  correlationId : Option String

inductive ValidationError where
  | emptyContent
  | emptyTitle
  | invalidUrl (reason : String)
  | invalidMetadata (reason : String)
  deriving DecidableEq, Repr

def ValidationError.text : ValidationError → String
  | .emptyContent => "empty_content"
  | .emptyTitle => "empty_title"
  | .invalidUrl reason => "invalid_url: " ++ reason
  | .invalidMetadata reason => "invalid_metadata: " ++ reason

namespace DocumentChunk

variable (crates : ExportCrates)

def get (chunk : DocumentChunk) (key : String) : Option String :=
  (chunk.metadata.find? fun entry => entry.1 == key).map Prod.snd

def fromScrapedContent (scraped : ScrapedContent) (stamp : ChunkStamp) : DocumentChunk where
  id := stamp.id
  url := scraped.url
  title := scraped.title
  content := scraped.content
  metadata := stamp.order.arrange ([
    ("excerpt", scraped.excerpt),
    ("author", scraped.author),
    ("date", scraped.date),
    ("domain", (crates.urls.parse scraped.url).bind crates.hostStr)].filterMap
      fun (key, value) => value.map (key, ·))
  timestampRfc3339 := stamp.rfc3339
  timestamp := stamp.serialized
  correlationId := scraped.correlationId

/-- Content, title, URL, then the metadata values in iteration order. -/
def validate (chunk : DocumentChunk) : Except ValidationError DocumentChunk :=
  if Text.isBlank chunk.content then .error .emptyContent
  else if Text.isBlank chunk.title then .error .emptyTitle
  else if (crates.urls.parse chunk.url).isNone then
    .error (.invalidUrl (crates.parseError chunk.url))
  else
    match chunk.metadata.find? fun entry => Text.isBlank entry.2 with
    | some (key, _) => .error (.invalidMetadata s!"metadata key '{key}' has empty value")
    | none => .ok chunk

variable {crates}

theorem eq_of_validate {chunk validated : DocumentChunk}
    (passed : chunk.validate crates = .ok validated) : validated = chunk := by
  unfold validate at passed
  split_ifs at passed
  split at passed
  · cases passed
  · cases passed
    rfl

variable (crates) in
/-- A page that yields a valid chunk, whatever the stamp. -/
structure Exportable (scraped : ScrapedContent) : Prop where
  content : Text.isBlank scraped.content = false
  title : Text.isBlank scraped.title = false
  parses : (crates.urls.parse scraped.url).isSome
  excerpt : ∀ value ∈ scraped.excerpt, Text.isBlank value = false
  author : ∀ value ∈ scraped.author, Text.isBlank value = false
  date : ∀ value ∈ scraped.date, Text.isBlank value = false
  host : ∀ value ∈ (crates.urls.parse scraped.url).bind crates.hostStr, Text.isBlank value = false

theorem Exportable.validate {scraped : ScrapedContent} (exportable : Exportable crates scraped)
    (stamp : ChunkStamp) : (fromScrapedContent crates scraped stamp).validate crates =
      .ok (fromScrapedContent crates scraped stamp) := by
  have filled : ∀ entry ∈ (fromScrapedContent crates scraped stamp).metadata,
      ¬ Text.isBlank entry.2 = true := by
    intro entry member
    rw [fromScrapedContent, (stamp.order.perm _).mem_iff, List.mem_filterMap] at member
    obtain ⟨⟨key, value⟩, listed, kept⟩ := member
    obtain ⟨text, rfl, rfl⟩ := Option.map_eq_some_iff.mp kept
    simp only [List.mem_cons, Prod.mk.injEq, List.not_mem_nil, or_false] at listed
    rw [Bool.not_eq_true]
    rcases listed with ⟨-, here⟩ | ⟨-, here⟩ | ⟨-, here⟩ | ⟨-, here⟩
    · exact exportable.excerpt text here.symm
    · exact exportable.author text here.symm
    · exact exportable.date text here.symm
    · exact exportable.host text here.symm
  have clean := List.find?_eq_none.mpr filled
  have parsed : (crates.urls.parse scraped.url).isNone = false := by
    simpa using exportable.parses
  unfold DocumentChunk.validate
  rw [clean]
  simp [fromScrapedContent, exportable.content, exportable.title, parsed]

end DocumentChunk

/-! ### The excerpt repair -/

namespace ExcerptRepair

def normalizeWhitespace (text : String) : String :=
  let needsCleanup :=
    text.toList.any (fun c => Text.isWhitespace c && c != ' ') || Text.contains text "  "
  if needsCleanup then " ".intercalate (Text.splitWhitespace text) else text

def emptyBylineFragment : String := "\\bby\\s+\\([^)]*\\)"

def repairEmptyByline (crates : ExportCrates) (excerpt : String) (author : Option String) :
    String :=
  let replacement := match author with
    | some name => "by " ++ name
    | none => ""
  normalizeWhitespace (Text.trim (crates.replaceAll emptyBylineFragment excerpt replacement))

end ExcerptRepair

end Webfang.Domain
