import Webfang.Export.ProcessResults

/-!
# The records of the output files

When a file holds a record of a page with a given content hash, and what one append does to
the records: it keeps those there are, and it adds its own when it succeeds.
-/
namespace Webfang.Export

open Library Domain Segments

/-- What the exporters rely on of the JSON crate for one value: it reads back what it wrote,
and it writes no control character. -/
structure JsonText (crates : ExportCrates) (value : Json) : Prop where
  roundTrip : crates.fromStr (crates.toString value) = some value
  printable : ∀ b ∈ utf8 (crates.toString value), 32 ≤ b

variable {crates : ExportCrates}

theorem JsonText.newline_notMem {value : Json} (text : JsonText crates value) :
    newline ∉ utf8 (crates.toString value) := by
  intro member
  exact absurd (text.printable newline member) (by decide)

theorem stripTerminator_line {line : Bytes} (printable : ∀ b ∈ line, 32 ≤ b) :
    stripTerminator (line ++ [newline]) = line := by
  have body : line.rdropWhile (fun b => b == newline || b == carriageReturn) = line := by
    rw [List.rdropWhile_eq_self_iff]
    intro more
    have last := printable _ (List.getLast_mem more)
    generalize line.getLast more = b at last ⊢
    intro terminator
    rcases Bool.or_eq_true_iff.mp terminator with same | same
    · rw [eq_of_beq same] at last
      exact absurd last (by decide)
    · rw [eq_of_beq same] at last
      exact absurd last (by decide)
  rw [stripTerminator, List.rdropWhile_concat_pos _ _ _ (by rfl), body]

/-! ### The records of the output files -/

/-- The page and the content hash that a line of the JSONL file records. -/
def readLine (crates : ExportCrates) (line : Bytes) : Option (String × String) :=
  (fromUtf8 (stripTerminator line)).bind fun text => (crates.fromStr text).bind fun value =>
    match value.get "url", value.get checksumField with
    | some (.str url), some (.str hash) => some (url, hash)
    | _, _ => none

/-- The page that a document of the vector file records, with the hash of its content. -/
def readDocument (crates : ExportCrates) (document : Bytes) : Option (String × String) :=
  (fromUtf8 document).bind fun text => (crates.fromStr text).bind fun value =>
    match value.get "url", value.get "content" with
    | some (.str url), some (.str content) => some (url, crates.sha256Hex content)
    | _, _ => none

/-- The file that the exporter writes holds a record of the page with that content hash. -/
def HasRecord (crates : ExportCrates) (exporter : Exporter) (outputs : Outputs)
    (url hash : String) : Prop :=
  match exporter with
  | .jsonl _ => ∃ line ∈ durableLines outputs.jsonl, readLine crates line = some (url, hash)
  | .vector => ∃ document, HoldsDocument (outputBytes outputs.vector) document ∧
      readDocument crates document = some (url, hash)

theorem readLine_serializeLine {document : DocumentChunk}
    (text : JsonText crates (jsonlValue crates document)) :
    readLine crates (serializeLine crates document ++ [newline]) =
      some (document.url, crates.sha256Hex document.content) := by
  have decoded : fromUtf8 (stripTerminator (serializeLine crates document ++ [newline])) =
      some (crates.toString (jsonlValue crates document)) := by
    rw [serializeLine, stripTerminator_line text.printable, fromUtf8_utf8]
  rw [readLine, decoded, Option.bind_some, text.roundTrip]
  rfl

theorem readDocument_serializeDocument {document : DocumentChunk}
    (text : JsonText crates (documentValue document)) :
    readDocument crates (serializeDocument crates document) =
      some (document.url, crates.sha256Hex document.content) := by
  rw [readDocument, serializeDocument, fromUtf8_utf8, Option.bind_some, text.roundTrip]
  rfl

/-! ### One append -/

def Exporter.Fits (exporter : Exporter) (outputs : Outputs) : Prop :=
  match exporter with
  | .jsonl writer => writer.Fits outputs.jsonl
  | .vector => True

def SameFile : Exporter → Exporter → Prop
  | .jsonl _, .jsonl _ => True
  | .vector, .vector => True
  | _, _ => False

theorem SameFile.refl (exporter : Exporter) : SameFile exporter exporter := by
  cases exporter <;> trivial

theorem SameFile.trans {a b c : Exporter} (first : SameFile a b) (second : SameFile b c) :
    SameFile a c := by
  cases a <;> cases b <;> cases c <;> trivial

theorem SameFile.hasRecord {a b : Exporter} (same : SameFile a b) {outputs : Outputs}
    {url hash : String} : HasRecord crates a outputs url hash ↔ HasRecord crates b outputs url hash := by
  cases a <;> cases b <;> first | exact Iff.rfl | exact same.elim

/-- The JSON crate handles what an export of the document writes. -/
structure Writable (crates : ExportCrates) (document : DocumentChunk) : Prop where
  jsonl : JsonText crates (jsonlValue crates document)
  vector : JsonText crates (documentValue document)

/-- The same, and the text of a document does not hold what begins the documents of a vector file:
compact JSON has no space behind a colon. -/
structure Delimited (crates : ExportCrates) (document : DocumentChunk) : Prop where
  writable : Writable crates document
  unmarked : ¬ documentsMarker <:+: serializeDocument crates document

/-- An append to the vector file is refused before it changes the file, or it starts from a file
that the exporter can reopen and does not fail. -/
def AppendSafe (exporter : Exporter) (outputs : Outputs) (env : ItemEnv) : Prop :=
  exporter = .vector → RefusedUncut env.append (outputBytes outputs.vector) ∨
    AppendReady (outputBytes outputs.vector) ∧ env.append.fault = none

/-- An append keeps every record of the file and brings none of another page, and one that succeeds
adds its own. -/
theorem export_holds {outputPath : String} {env : ItemEnv} {exporter exporter' : Exporter}
    {outputs outputs' : Outputs} {document : DocumentChunk} {result : Except ExporterError Unit}
    (fits : exporter.Fits outputs) (delimited : Delimited crates document)
    (safe : AppendSafe exporter outputs env)
    (returned : exporter.export crates outputPath env outputs document = (result, exporter', outputs')) :
    SameFile exporter exporter' ∧ exporter'.Fits outputs' ∧
      (∀ url hash, HasRecord crates exporter outputs url hash →
        HasRecord crates exporter' outputs' url hash) ∧
      (∀ url hash, url ≠ document.url → HasRecord crates exporter' outputs' url hash →
        HasRecord crates exporter outputs url hash) ∧
      (result = .ok () → HasRecord crates exporter' outputs' document.url
        (crates.sha256Hex document.content)) := by
  obtain ⟨writable, unmarked⟩ := delimited
  cases exporter with
  | jsonl writer =>
    cases returned
    obtain ⟨stillFits, outcome⟩ := jsonlExport_spec crates outputPath env.append fits
      writable.jsonl.newline_notMem rfl
    have line := readLine_serializeLine writable.jsonl
    rcases outcome with ⟨-, -, lines⟩ | ⟨failed, lines, -⟩
    -- the durable lines are the old ones and the new one, or the old ones
    all_goals refine ⟨trivial, stillFits, ?_, ?_, ?_⟩
    · rintro url hash ⟨line, member, read⟩
      exact ⟨line, lines ▸ List.mem_append_left _ member, read⟩
    · rintro url hash other ⟨found, member, read⟩
      rw [lines] at member
      rcases List.mem_append.mp member with earlier | new
      · exact ⟨found, earlier, read⟩
      · rw [List.mem_singleton.mp new, line] at read
        exact absurd (Prod.mk.inj (Option.some.inj read)).1.symm other
    · exact fun _ => ⟨_, lines ▸ List.mem_append_right _ List.mem_cons_self, line⟩
    · rintro url hash ⟨line, member, read⟩
      exact ⟨line, lines ▸ member, read⟩
    · rintro url hash - ⟨line, member, read⟩
      exact ⟨line, lines ▸ member, read⟩
    · exact fun ok => absurd ok failed
  | vector =>
    cases returned
    obtain ⟨kept, brought, added⟩ := vectorExport_holds crates env.createdAt (safe rfl)
      writable.vector.newline_notMem unmarked rfl
    have read := readDocument_serializeDocument writable.vector
    refine ⟨trivial, trivial, ?_, ?_, fun ok => ⟨_, added ok, read⟩⟩
    · rintro url hash ⟨held, present, read⟩
      exact ⟨held, kept held present, read⟩
    · rintro url hash other ⟨held, present, found⟩
      rcases brought held present with earlier | rfl
      · exact ⟨held, earlier, found⟩
      · rw [read] at found
        exact absurd (Prod.mk.inj (Option.some.inj found)).1.symm other

def Exporter.IsJsonl (exporter : Exporter) : Prop := ∃ writer, exporter = .jsonl writer

/-- Nothing asks for care with the JSONL file. -/
theorem appendSafe_jsonl {exporter : Exporter} (jsonl : exporter.IsJsonl) (outputs : Outputs)
    (env : ItemEnv) : AppendSafe exporter outputs env := by
  obtain ⟨writer, rfl⟩ := jsonl
  exact nofun

theorem SameFile.isJsonl {a b : Exporter} (same : SameFile a b) (jsonl : a.IsJsonl) : b.IsJsonl := by
  obtain ⟨writer, rfl⟩ := jsonl
  cases b with
  | jsonl other => exact ⟨other, rfl⟩
  | vector => exact same.elim

/-! ### Opening over one line -/

theorem readJsonlChecksumIndex_serializeLine {document : DocumentChunk}
    (text : JsonText crates (jsonlValue crates document)) (filled : serializeLine crates document ≠ []) :
    readJsonlChecksumIndex crates.fromStr (serializeLine crates document ++ [newline]) =
      ⟨JsonlChecksumIndex.empty.hashes.insert (crates.sha256Hex document.content), ⟨1, 0, 0⟩⟩ := by
  have stripped : stripTerminator (serializeLine crates document ++ [newline]) =
      serializeLine crates document := stripTerminator_line text.printable
  have decoded : fromUtf8 (serializeLine crates document) =
      some (crates.toString (jsonlValue crates document)) := fromUtf8_utf8 _
  have checksum : ((jsonlValue crates document).get checksumField).bind Json.asStr =
      some (crates.sha256Hex document.content) := rfl
  have flat : newline ∉ serializeLine crates document := text.newline_notMem
  rw [readJsonlChecksumIndex, segments_line flat, List.foldl_cons, List.foldl_nil, indexLine,
    stripped, if_neg filled]
  simp only [decoded, text.roundTrip, checksum]
  rfl

theorem openState_serializeLine {document : DocumentChunk}
    (text : JsonText crates (jsonlValue crates document)) (filled : serializeLine crates document ≠ []) (context : ResumeContext) {store : RecordStore} {io : Io}
    {file after : StateFile} {records : DomainRecords} {vector : Option Bytes}
    (loaded : store.loadOrInit io file = (records, after)) :
    openState crates (some context) store .jsonl io file
      ⟨some (serializeLine crates document ++ [newline]), vector⟩ =
      (⟨{ ctx := some context
          records
          hashIndex := JsonlChecksumIndex.empty.hashes.insert (crates.sha256Hex document.content)
          driven := []
          skippedNonUtf8 := 0 },
        .jsonl .unopened, ⟨some (serializeLine crates document ++ [newline]), vector⟩⟩, after) := by
  have index : buildContentHashIndex crates.fromStr (some (serializeLine crates document ++ [newline])) =
      ⟨JsonlChecksumIndex.empty.hashes.insert (crates.sha256Hex document.content), ⟨1, 0, 0⟩⟩ :=
    readJsonlChecksumIndex_serializeLine text filled
  unfold openState CommitSession.openSession
  dsimp only
  rw [loaded, index]
  rfl

section

variable {outputPath : String} {store : RecordStore} {format : ExportFormat} {env : CallEnv}
  {file after : StateFile} {outputs : Outputs} {results : List (ScrapedContent × ItemEnv)}
  {ctx : Option ResumeContext} {state : ExportState}

theorem processResults_of_opened (directory : env.directoryError = none)
    (opened : openState crates ctx store format env.load file outputs = (state, after)) :
    let ran := runItems crates outputPath (ctx.elim env.fallbackRunId ResumeContext.runId) state results
    (processResults crates outputPath ctx store format env results file outputs).toOption.map
      (fun call => (call.traces, call.outputs)) = some (ran.2, ran.1.outputs) := by
  rw [processResults, directory]
  dsimp only
  rw [opened]
  rfl

end

/-! ### The crates on plain texts, for concrete runs -/

namespace PlainCrates

mutual

/-- `serde_json::to_string` on values whose texts need no escape. -/
def render : Json → String
  | .null => "null"
  | .bool value => if value then "true" else "false"
  | .int n => toString n
  | .float bits => toString bits
  | .str text => "\"" ++ text ++ "\""
  | .arr items => "[" ++ renderItems items ++ "]"
  | .obj fields => "\x7b" ++ renderFields fields ++ "\x7d"

def renderItems : List Json → String
  | [] => ""
  | [item] => render item
  | item :: rest => render item ++ "," ++ renderItems rest

def renderFields : List (String × Json) → String
  | [] => ""
  | [(name, value)] => "\"" ++ name ++ "\":" ++ render value
  | (name, value) :: rest => "\"" ++ name ++ "\":" ++ render value ++ "," ++ renderFields rest

end

def hostStr (url : String × String) : Option String :=
  (PlainUrl.splitScheme url.1.toList).map fun (_, host) => String.ofList host

/-- The digests of the two contents in use. -/
def sha256Hex (content : String) : String :=
  if content = "a" then "ca978112ca1bbdcafac231b39a23dc4da786eff8147c4e72b9807785afee48bb"
  else if content = "b" then "3e23e8160039594a33894f6564e1b1348bbd7a0088d42c4acb73eeaed59c009d"
  else ""

/-- A parser that knows the given values by their texts. -/
def parsing (values : List Json) (text : String) : Option Json :=
  values.find? fun value => render value == text

def knowing (values : List Json) : ExportCrates where
  urls := plainUrls
  hostStr
  parseError _ := "relative URL without a base"
  fromStr := parsing values
  toString := render
  sha256Hex
  replaceAll _ text _ := text

def page (url content : String) : ScrapedContent where
  title := "Page"
  content
  url
  excerpt := none
  author := none
  date := none
  correlationId := none

def stamp : ChunkStamp where
  id := "6f1c1e4e-5f0c-4c57-9d3e-2c1f6f3b7a10"
  rfc3339 := "2026-01-01T00:00:00+00:00"
  serialized := "2026-01-01T00:00:00Z"
  order := .insertion

def createdAt : Rfc3339 where
  text := "2026-01-01T00:00:00+00:00"
  plain := by decide +kernel

def itemEnv (now : Int64) : ItemEnv where
  now
  stamp
  createdAt

def valuesOf (pages : List ScrapedContent) : List Json :=
  pages.flatMap fun page =>
    let chunk := DocumentChunk.fromScrapedContent (knowing []) page stamp
    [jsonlValue (knowing []) chunk, documentValue chunk]

def printing (pages : List ScrapedContent) : ExportCrates := knowing (valuesOf pages)

theorem parsing_render {values : List Json} (distinct : (values.map render).Nodup) {value : Json}
    (member : value ∈ values) : parsing values (render value) = some value := by
  induction values with
  | nil => cases member
  | cons first rest ih =>
    rw [List.map_cons, List.nodup_cons] at distinct
    rcases List.mem_cons.mp member with rfl | later
    · simp [parsing]
    -- its text is not that of an earlier value
    · have other : ¬ render first = render value := by
        intro same
        exact distinct.1 (same ▸ List.mem_map_of_mem later)
      rw [parsing, List.find?_cons_of_neg (by simpa using other)]
      exact ih distinct.2 later

theorem writable_printing {pages : List ScrapedContent} (distinct : ((valuesOf pages).map render).Nodup)
    (printed : (valuesOf pages).all (fun value => (utf8 (render value)).all fun b => decide (32 ≤ b)) = true)
    {scraped : ScrapedContent} (listed : scraped ∈ pages) :
    Writable (printing pages) (DocumentChunk.fromScrapedContent (printing pages) scraped stamp) := by
  have known : ∀ value ∈ [
      jsonlValue (knowing []) (DocumentChunk.fromScrapedContent (knowing []) scraped stamp),
      documentValue (DocumentChunk.fromScrapedContent (knowing []) scraped stamp)],
      value ∈ valuesOf pages :=
    fun value member => List.mem_flatMap.mpr ⟨scraped, listed, member⟩
  have printable (value : Json) (listed : value ∈ valuesOf pages) (b : UInt8)
      (member : b ∈ utf8 (render value)) : 32 ≤ b :=
    of_decide_eq_true (List.all_eq_true.mp (List.all_eq_true.mp printed value listed) b member)
  have line := known _ List.mem_cons_self
  have document := known _ (List.mem_cons_of_mem _ List.mem_cons_self)
  exact ⟨⟨parsing_render distinct line, printable _ line⟩,
    ⟨parsing_render distinct document, printable _ document⟩⟩

end PlainCrates

end Webfang.Export
