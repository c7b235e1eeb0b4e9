import Webfang.Domain.PageState
import Webfang.Domain.ScrapedContent
import Webfang.Export.Jsonl

/-!
# JSONL exporter

`infrastructure/export/jsonl_exporter.rs` over the single-writer session of `jsonl_writer.rs`:
the line of one document, the session opened on the first write, and the append with its
flush barrier. What the file system does to one append is its `AppendFault`.
-/
namespace Webfang.Export

open Library Domain Segments

def utf8 (text : String) : Bytes := text.toUTF8.data.toList

theorem fromUtf8_utf8 (text : String) : fromUtf8 (utf8 text) = some text := by
  have rejoined : (⟨(utf8 text).toArray⟩ : ByteArray) = text.toByteArray := by
    rw [utf8, Array.toArray_toList]
    rfl
  rw [fromUtf8, rejoined, String.fromUTF8?, dif_pos text.isValidUTF8]
  rfl

inductive ExporterError where
  | directoryCreation (reason : String)
  | writeError (reason : String)
  | invalidConfig (reason : String)
  deriving DecidableEq, Repr

def ExporterError.text : ExporterError → String
  | .directoryCreation reason => "failed to create output directory: " ++ reason
  | .writeError reason => "write error: " ++ reason
  | .invalidConfig reason => "invalid config: " ++ reason

def classifyExportFailure : ExporterError → ErrorClass
  | .invalidConfig _ => .domainRecoverable
  | _ => .internalFatal

/-- Where an append of one document fails. A written count is the number of bytes that
reached the file before the failure. -/
inductive AppendFault where
  | directory
  /-- Before the existing file is changed. -/
  | beforeCut
  /-- After the torn tail, or the closing bracket, was cut. -/
  | afterCut
  | migration (written : Nat)
  | append (written : Nat)
  | patch (written : Nat)
  deriving DecidableEq, Repr

structure AppendEnv where
  fault : Option AppendFault := none
  /-- The text of the operating system's error. -/
  reason : String := ""
  /-- Whether a failed writer is already gone when the flush is requested. -/
  writerGone : Bool := false

/-! ### The line of one document -/

structure WebfangMetadata where
  url : String
  timestampUtc : String
  title : Option String
  content : String
  checksumSha256 : String
  metadataVersion : String
  contentLength : Nat
  wordCount : Option Nat
  readingTime : Option Nat
  language : Option String
  contentType : Option String
  scrapeDate : Option String
  /-- In key order. -/
  extraMetadata : Option (List (String × String))

namespace WebfangMetadata

/-- The metadata map of a chunk with its excerpt repaired, or dropped when nothing is left. -/
def repairedMetadata (crates : ExportCrates) (chunk : DocumentChunk) : List (String × String) :=
  match chunk.get "excerpt" with
  | none => chunk.metadata
  | some rawExcerpt =>
    let repaired := ExcerptRepair.repairEmptyByline crates rawExcerpt (chunk.get "author")
    if repaired = "" then chunk.metadata.filter fun entry => entry.1 != "excerpt"
    else chunk.metadata.map fun entry =>
      if entry.1 == "excerpt" then ("excerpt", repaired) else entry

/-- Entries in the order of a `BTreeMap`. -/
def sortByKey (entries : List (String × String)) : List (String × String) :=
  (Std.ExtTreeMap.ofList entries compare).toList

def fromChunk (crates : ExportCrates) (chunk : DocumentChunk) : WebfangMetadata :=
  let wordCount := ((chunk.get "word_count").bind Text.parseUsize).orElse fun _ =>
    let count := (Text.splitWhitespace chunk.content).length
    if 0 < count then some count else none
  let entries := repairedMetadata crates chunk
  { url := chunk.url
    timestampUtc := chunk.timestampRfc3339
    title := some chunk.title
    content := chunk.content
    checksumSha256 := crates.sha256Hex chunk.content
    metadataVersion := "2.1.0"
    contentLength := chunk.content.toList.length
    wordCount
    readingTime := ((chunk.get "reading_time").bind Text.parseUsize).orElse fun _ =>
      wordCount.map fun words => max (words / 200) 1
    language := chunk.get "language"
    contentType := chunk.get "content_type"
    scrapeDate := chunk.get "scrape_date"
    extraMetadata := if entries.isEmpty then none else some (sortByKey entries) }

/-- A field that is skipped when absent. -/
def optional (name : String) : Option Json → List (String × Json)
  | none => []
  | some value => [(name, value)]

def toValue (metadata : WebfangMetadata) : Json :=
  .obj ([
    ("url", .str metadata.url),
    ("timestamp_utc", .str metadata.timestampUtc),
    ("title", .ofOption .str metadata.title),
    ("content", .str metadata.content),
    (checksumField, .str metadata.checksumSha256),
    ("metadata_version", .str metadata.metadataVersion),
    ("content_length", .int metadata.contentLength)] ++
    optional "word_count" (metadata.wordCount.map fun n => .int n) ++
    optional "reading_time" (metadata.readingTime.map fun n => .int n) ++
    optional "language" (metadata.language.map .str) ++
    optional "content_type" (metadata.contentType.map .str) ++
    optional "scrape_date" (metadata.scrapeDate.map .str) ++
    optional "extra_metadata" (metadata.extraMetadata.map fun entries =>
      .obj (entries.map fun (key, value) => (key, .str value))))

end WebfangMetadata

def jsonlValue (crates : ExportCrates) (document : DocumentChunk) : Json :=
  (WebfangMetadata.fromChunk crates document).toValue

/-- `serialize_line`, as bytes. -/
def serializeLine (crates : ExportCrates) (document : DocumentChunk) : Bytes :=
  utf8 (crates.toString (jsonlValue crates document))

/-! ### The writer session -/

inductive JsonlWriter where
  | unopened
  | running
  /-- The writer thread left its loop after a failed write. -/
  | exited
  deriving DecidableEq, Repr

/-- What a fallible call on an output file leaves: its result, the writer and the file. -/
structure Appended where
  result : Except ExporterError Unit
  writer : JsonlWriter
  file : Option Bytes

def tailTooLongText (fileLen : Nat) : String :=
  s!"torn JSONL tail is longer than the recovery window: no newline boundary in the last {maxTailWindowBytes} bytes of a {fileLen}-byte file, and the {maxTailWindowBytes}-byte window cap was reached"

/-- `session()`: the writer, opened on the first use. A failed opening is retried by the
next export. -/
def openWriter (crates : ExportCrates) (path : String) (env : AppendEnv) (writer : JsonlWriter)
    (file : Option Bytes) : Appended :=
  let failed (reason : String) (file : Option Bytes) : Appended :=
    ⟨.error (.writeError s!"{path}: {reason}"), .unopened, file⟩
  if writer ≠ .unopened then ⟨.ok (), writer, file⟩
  else if env.fault = some .directory then
    ⟨.error (.directoryCreation env.reason), .unopened, file⟩
  else if env.fault = some .beforeCut then failed env.reason file
  else
    match jsonlSessionOpen crates.fromStr file with
    | .error .tailTooLong => failed (tailTooLongText (file.getD []).length) file
    | .ok (recovered, _) =>
      if env.fault = some .afterCut then failed env.reason (file.map fun _ => recovered)
      else ⟨.ok (), .running, some recovered⟩

/-- `append` and `flush`: a write that fails ends the writer, and the flush that follows
never gets its acknowledgement. -/
def appendAndFlush (env : AppendEnv) (writer : JsonlWriter) (file : Option Bytes)
    (line : Bytes) : Appended :=
  let bytes := file.getD []
  if writer = .exited then ⟨.error (.writeError "JSONL writer has exited"), .exited, file⟩
  else
    match env.fault with
    | some (.append written) =>
      let reason :=
        if env.writerGone then "JSONL writer has exited" else "JSONL writer died before flushing"
      ⟨.error (.writeError reason), .exited, some (bytes ++ line.take written)⟩
    | _ => ⟨.ok (), .running, some (bytes ++ line ++ [newline])⟩

def jsonlExport (crates : ExportCrates) (path : String) (env : AppendEnv) (writer : JsonlWriter)
    (file : Option Bytes) (document : DocumentChunk) : Appended :=
  let line := serializeLine crates document
  let opened := openWriter crates path env writer file
  match opened.result with
  | .error _ => opened
  | .ok () => appendAndFlush env opened.writer opened.file line

/-! ### What one append does to the lines -/

def outputBytes (file : Option Bytes) : Bytes := file.getD []

/-- The lines of a file, terminators included: what the recovery keeps. -/
def durableLines (file : Option Bytes) : List Bytes :=
  segments newline (terminatedPrefix newline (outputBytes file))

def tornBytes (file : Option Bytes) : Bytes := tornTail newline (outputBytes file)

/-- A running writer appends to a file without a torn tail. -/
def JsonlWriter.Fits (writer : JsonlWriter) (file : Option Bytes) : Prop :=
  writer = .running → tornBytes file = []

theorem terminatedPrefix_of_clean {bytes : Bytes} (clean : tornTail newline bytes = []) :
    terminatedPrefix newline bytes = bytes := by
  have whole := terminatedPrefix_append_tornTail newline bytes
  rwa [clean, List.append_nil] at whole

theorem clean_of_terminated {bytes : Bytes} (ended : Terminated newline bytes) :
    tornTail newline bytes = [] := by
  simpa using tornTail_eq newline ended List.not_mem_nil

/-- The file after the recovery: the lines stay, the tail is cut. -/
theorem jsonlSessionOpen_spec {fromStr : String → Option Json} {file : Option Bytes}
    {recovered : Bytes} {hashes : Std.ExtTreeSet String}
    (opened : jsonlSessionOpen fromStr file = .ok (recovered, hashes)) :
    recovered = terminatedPrefix newline (outputBytes file) := by
  classical
  cases file with
  | none =>
    cases opened
    rfl
  | some bytes =>
    unfold jsonlSessionOpen at opened
    dsimp only at opened
    rw [recoverTornTail_eq] at opened
    split_ifs at opened
    · cases opened
      rfl
    · cases opened
      rfl

/-- The opening keeps the lines; only when it succeeds is the tail certainly gone. -/
theorem openWriter_spec (crates : ExportCrates) (path : String) (env : AppendEnv)
    {writer : JsonlWriter} {file : Option Bytes} (fits : writer.Fits file) {opened : Appended}
    (returned : openWriter crates path env writer file = opened) :
    durableLines opened.file = durableLines file ∧
      (tornBytes opened.file = tornBytes file ∨ tornBytes opened.file = []) ∧
      (opened.result = .ok () → opened.writer ≠ .unopened ∧ opened.writer.Fits opened.file) ∧
      (opened.result ≠ .ok () → opened.writer = .unopened) := by
  -- cutting the torn tail takes no line away
  have cut : durableLines (some (terminatedPrefix newline (outputBytes file))) = durableLines file ∧
      tornBytes (some (terminatedPrefix newline (outputBytes file))) = [] := by
    have ended := terminated_terminatedPrefix newline (outputBytes file)
    have clean := clean_of_terminated ended
    refine ⟨?_, clean⟩
    simp only [durableLines, outputBytes, Option.getD_some] at clean ⊢
    rw [terminatedPrefix_of_clean clean]
  subst returned
  unfold openWriter
  dsimp only
  split_ifs with open_ directory early late
  · exact ⟨rfl, .inl rfl, fun _ => ⟨open_, fits⟩, fun failed => absurd rfl failed⟩
  · exact ⟨rfl, .inl rfl, nofun, fun _ => rfl⟩
  · exact ⟨rfl, .inl rfl, nofun, fun _ => rfl⟩
  · -- the recovery may have run before the reopening failed
    cases recovery : jsonlSessionOpen crates.fromStr file with
    | error e => exact ⟨rfl, .inl rfl, nofun, fun _ => rfl⟩
    | ok survived =>
      have same := jsonlSessionOpen_spec recovery
      cases file with
      | none => exact ⟨rfl, .inl rfl, nofun, fun _ => rfl⟩
      | some bytes =>
        rw [← same] at cut
        exact ⟨cut.1, .inr cut.2, nofun, fun _ => rfl⟩
  · cases recovery : jsonlSessionOpen crates.fromStr file with
    | error e => exact ⟨rfl, .inl rfl, nofun, fun _ => rfl⟩
    | ok survived =>
      have same := jsonlSessionOpen_spec recovery
      rw [← same] at cut
      exact ⟨cut.1, .inr cut.2, fun _ => ⟨nofun, fun _ => cut.2⟩, fun failed => absurd rfl failed⟩

/-- What one export does to the file: a new last line, or no new line and a tail that was
there before, is gone, or is the start of the line that failed. -/
theorem jsonlExport_spec (crates : ExportCrates) (path : String) (env : AppendEnv)
    {writer : JsonlWriter} {file : Option Bytes} (fits : writer.Fits file)
    {document : DocumentChunk} (flat : newline ∉ serializeLine crates document)
    {appended : Appended} (returned : jsonlExport crates path env writer file document = appended) :
    appended.writer.Fits appended.file ∧
      ((appended.result = .ok () ∧ tornBytes appended.file = [] ∧
          durableLines appended.file =
            durableLines file ++ [serializeLine crates document ++ [newline]]) ∨
        (appended.result ≠ .ok () ∧ durableLines appended.file = durableLines file ∧
          (tornBytes appended.file = tornBytes file ∨ tornBytes appended.file = [] ∨
            ∃ written, tornBytes appended.file = (serializeLine crates document).take written))) := by
  obtain ⟨lines, torn, ready, stopped⟩ := openWriter_spec crates path env fits rfl
  unfold jsonlExport at returned
  dsimp only at returned
  generalize openWriter crates path env writer file = opened at *
  obtain ⟨result, openedWriter, openedFile⟩ := opened
  cases result with
  | error e =>
    subst returned
    have closed : openedWriter = .unopened := stopped nofun
    refine ⟨fun running => absurd (closed.symm.trans running) nofun, .inr ⟨nofun, lines, ?_⟩⟩
    rcases torn with kept | gone
    · exact .inl kept
    · exact .inr (.inl gone)
  | ok =>
    obtain ⟨open_, openFits⟩ := ready rfl
    dsimp only at returned lines torn open_ openFits
    unfold appendAndFlush at returned
    dsimp only at returned
    split at returned
    next exited =>
      subst returned
      exact ⟨nofun, .inr ⟨nofun, lines, torn.imp_right .inl⟩⟩
    next exited =>
      have running : openedWriter = .running := by
        cases openedWriter with
        | unopened => exact absurd rfl open_
        | running => rfl
        | exited => exact absurd rfl exited
      have clean := openFits running
      have whole : terminatedPrefix newline (outputBytes openedFile) = outputBytes openedFile :=
        terminatedPrefix_of_clean clean
      have ended := terminated_terminatedPrefix newline (outputBytes openedFile)
      rw [whole] at ended
      rw [durableLines, whole] at lines
      split at returned
      next written _ =>
        -- the part that was written is the new torn tail
        have absent : newline ∉ (serializeLine crates document).take written :=
          fun member => flat (List.mem_of_mem_take member)
        subst returned
        refine ⟨nofun, .inr ⟨nofun, ?_, .inr (.inr ⟨written, tornTail_eq newline ended absent⟩)⟩⟩
        rw [← lines]
        exact congrArg (segments newline) (terminatedPrefix_eq newline ended absent)
      next =>
        have line : segments newline (serializeLine crates document ++ [newline]) =
            [serializeLine crates document ++ [newline]] := segments_line flat
        have grown : Terminated newline
            (outputBytes openedFile ++ serializeLine crates document ++ [newline]) := .inr ⟨_, rfl⟩
        subst returned
        refine ⟨fun _ => clean_of_terminated grown, .inl ⟨rfl, clean_of_terminated grown, ?_⟩⟩
        rw [← lines, ← line, ← segments_append _ ended, ← List.append_assoc]
        exact congrArg (segments newline) (terminatedPrefix_of_clean (clean_of_terminated grown))

end Webfang.Export
