import Webfang.Export.VectorDocuments

/-!
# Batches with embeddings

`infrastructure/export/vector_exporter.rs` in append mode, for documents that may carry an
embedding: the dimensions an exporter records, the two header windows patched in place, and
`export` and `export_batch` as far as they do not fail on the file system.
-/
namespace Webfang.Export

open Library Domain

def dimFieldWidth : Nat := 8

def dimensionsMarker : Bytes := utf8 "\"dimensions\": "

/-! ### Documents -/

/-- `DocumentChunkValidated`: a chunk and its embedding, each component as the bits of its
single. -/
structure EmbeddedChunk where
  chunk : DocumentChunk
  embeddings : Option (List UInt32)

/-- `serde_json`: the text of a value, and the double that the text of a single reads as. -/
structure SerdeJson where
  toString : Json → String
  single : UInt32 → UInt64

/-- `f32::is_finite`: an exponent that is not all ones. -/
def isFinite (bits : UInt32) : Bool := bits &&& 0x7F800000 != 0x7F800000

namespace EmbeddedChunk

def value (serde : SerdeJson) (document : EmbeddedChunk) : Json :=
  .obj ([
    ("id", .str document.chunk.id),
    ("url", .str document.chunk.url),
    ("title", .str document.chunk.title),
    ("content", .str document.chunk.content),
    ("metadata", .obj (document.chunk.metadata.map fun (key, value) => (key, .str value))),
    ("timestamp", .str document.chunk.timestamp)] ++
    WebfangMetadata.optional "embeddings" (document.embeddings.map fun components =>
      .arr (components.map fun bits => .float (serde.single bits))) ++
    WebfangMetadata.optional "correlation_id" (document.chunk.correlationId.map .str))

def withoutEmbeddings (document : EmbeddedChunk) : EmbeddedChunk :=
  { document with embeddings := none }

def text (serde : SerdeJson) (document : EmbeddedChunk) : Bytes :=
  utf8 (serde.toString (document.value serde))

/-- Every component is a number. -/
def Finite (document : EmbeddedChunk) : Prop :=
  ∀ components, document.embeddings = some components → ∀ bits ∈ components, isFinite bits = true

end EmbeddedChunk

/-! ### The exporter -/

/-- What an instance knows: the dimensions of the first embedding it met. -/
structure VectorExporter where
  dimensions : Option Nat
  deriving DecidableEq

def dimensionsField (dimensions : Option Nat) : Bytes :=
  utf8 (Text.padLeft dimFieldWidth (dimensions.elim "null" toString))

/-- The header up to its documents marker. -/
def headerLine (dimensions count createdAt : Bytes) : Bytes :=
  utf8 "\x7b\"format_version\": \"1.0\", \"model_name\": null, \"dimensions\": " ++ dimensions ++
    utf8 ", \"total_documents\": " ++ count ++ utf8 ", \"created_at\": \"" ++ createdAt ++ utf8 "\", "

def patchHeaderField (bytes head marker : Bytes) (fieldName : String) (value : Bytes) (width : Nat) :
    Except ExporterError Unit × Bytes :=
  if value.length ≠ width then
    (.error (.writeError
      s!"vector export {fieldName} value does not fit the reserved {width}-byte window"), bytes)
  else
    match Subslice.find marker head with
    | none => (.error (.writeError s!"vector export header is missing the {fieldName} field"), bytes)
    | some found =>
      let valueStart := found + marker.length
      if head[valueStart + width]? ≠ some comma then
        (.error (.writeError s!"vector export header layout mismatch around {fieldName}"), bytes)
      else (.ok (), Subslice.overwrite bytes valueStart value)

namespace VectorExporter

def new : VectorExporter := ⟨none⟩

def buildHeaderLine (exporter : VectorExporter) (createdAt : Bytes) : Bytes :=
  headerLine (dimensionsField exporter.dimensions) (countField 0) createdAt ++ documentsMarker

/-- What is left of `serialize_document` when the dimensions agree: a component that is no
number is an error. -/
def serializeWhole (serde : SerdeJson) (document : EmbeddedChunk) (components : List UInt32) :
    Except ExporterError Bytes :=
  if components.any fun bits => !isFinite bits then
    .error (.writeError "embeddings contain NaN or Infinity")
  else .ok (document.text serde)

/-- `serialize_document`, with the dimensions it leaves recorded. An embedding of other
dimensions is left out. -/
def serializeDocument (serde : SerdeJson) (exporter : VectorExporter) (document : EmbeddedChunk) :
    Except ExporterError Bytes × VectorExporter :=
  match document.embeddings with
  | none => (.ok (document.text serde), exporter)
  | some components =>
    match exporter.dimensions with
    | some expected =>
      if components.length ≠ expected then (.ok (document.withoutEmbeddings.text serde), exporter)
      else (serializeWhole serde document components, exporter)
    | none => (serializeWhole serde document components, ⟨some components.length⟩)

/-- What a loop over documents handed to the writer, and how it ended. -/
structure Written where
  text : Bytes
  exporter : VectorExporter
  result : Except ExporterError Unit

/-- The loop of `export_batch_documents`; a document that is not the first one of the file
has a comma in front. -/
def writeDocuments (serde : SerdeJson) :
    VectorExporter → (separated : Bool) → List EmbeddedChunk → Written
  | exporter, _, [] => ⟨[], exporter, .ok ()⟩
  | exporter, separated, document :: rest =>
    let lead := if separated then [comma] else []
    match exporter.serializeDocument serde document with
    | (.error e, exporter) => ⟨lead, exporter, .error e⟩
    | (.ok text, exporter) =>
      let more := writeDocuments serde exporter true rest
      ⟨lead ++ (text ++ [newline]) ++ more.text, more.exporter, more.result⟩

def migrateLegacyHeader (exporter : VectorExporter) (bytes : Bytes) : OnFile Nat :=
  let head := readHeaderBytes bytes
  match Subslice.find documentsMarker head with
  | none => .error (.writeError "vector export header is missing the documents array", bytes)
  | some found =>
    match extractCreatedAt head with
    | none => .error (.writeError "vector export header is missing created_at", bytes)
    | some createdAt =>
      .ok (countDocuments bytes,
        exporter.buildHeaderLine createdAt ++ bytes.drop (found + documentsMarker.length))

def readAppendState (exporter : VectorExporter) (bytes : Bytes) : OnFile Nat :=
  let head := readHeaderBytes bytes
  match Subslice.find totalMarker head with
  | none => .error (.writeError "vector export header is missing the total_documents field", bytes)
  | some found =>
    let valueStart := found + totalMarker.length
    if head[valueStart + countFieldWidth]? = some comma then
      match parseCountField ((head.drop valueStart).take countFieldWidth) with
      | .error e => .error (e, bytes)
      | .ok 0 => .ok (countDocuments bytes, bytes)
      | .ok count => .ok (count, bytes)
    else exporter.migrateLegacyHeader bytes

/-- `close_json` behind the closing: both windows are patched at the offsets of one scan. -/
def patchHeader (exporter : VectorExporter) (bytes : Bytes) (total : Nat) :
    Except ExporterError Unit × Bytes :=
  let head := readHeaderBytes bytes
  match patchHeaderField bytes head totalMarker "total_documents" (countField total)
      countFieldWidth with
  | (.error e, left) => (.error e, left)
  | (.ok (), counted) =>
    match exporter.dimensions with
    | none => (.ok (), counted)
    | some dimensions =>
      patchHeaderField counted head dimensionsMarker "dimensions" (dimensionsField (some dimensions))
        dimFieldWidth

/-- What a call returns: its result, the exporter and the file. -/
structure Exported where
  result : Except ExporterError Unit
  exporter : VectorExporter
  file : Option Bytes

/-- From the text of the documents on: an error leaves the file without a closing. -/
def finish (written : Written) (bytes : Bytes) (total : Nat) : Exported :=
  let bytes := bytes ++ written.text
  match written.result with
  | .error e => ⟨.error e, written.exporter, some bytes⟩
  | .ok () =>
    let (result, left) := written.exporter.patchHeader (bytes ++ closing) total
    ⟨result, written.exporter, some left⟩

/-- `writer()` with `read_append_state` and `write_metadata_header`: the file up to its end,
and how many documents it holds. `none` of them means that the next one is the first. -/
def openForDocuments (exporter : VectorExporter) (createdAt : Bytes) (file : Option Bytes) :
    OnFile (Option Nat) :=
  let opened := openForAppend file
  if opened = [] then .ok (none, exporter.buildHeaderLine createdAt)
  else (exporter.readAppendState opened).map fun (existing, bytes) => (some existing, bytes)

def exportBatch (serde : SerdeJson) (createdAt : Bytes) (exporter : VectorExporter)
    (file : Option Bytes) (documents : List EmbeddedChunk) : Exported :=
  if documents = [] then ⟨.ok (), exporter, file⟩
  else
    match exporter.openForDocuments createdAt file with
    | .error (e, left) => ⟨.error e, exporter, some left⟩
    | .ok (existing, bytes) =>
      finish (writeDocuments serde exporter existing.isSome documents) bytes
        (existing.getD 0 + documents.length)

/-- `VectorExporter::export`: as a batch of one document, but an error comes before the
comma. -/
def exportDocument (serde : SerdeJson) (createdAt : Bytes) (exporter : VectorExporter)
    (file : Option Bytes) (document : EmbeddedChunk) : Exported :=
  match exporter.openForDocuments createdAt file with
  | .error (e, left) => ⟨.error e, exporter, some left⟩
  | .ok (existing, bytes) =>
    let written : Written :=
      match exporter.serializeDocument serde document with
      | (.error e, exporter) => ⟨[], exporter, .error e⟩
      | (.ok text, exporter) =>
        ⟨(if existing.isSome then [comma] else []) ++ (text ++ [newline]), exporter, .ok ()⟩
    finish written bytes (existing.getD 0 + 1)

/-! ### Documents without embeddings -/

variable {createdAt : Bytes}

theorem buildHeaderLine_new (createdAt : Bytes) :
    new.buildHeaderLine createdAt = Export.buildHeaderLine createdAt := by
  have start : headerStart = utf8 "\x7b\"format_version\": \"1.0\", \"model_name\": null, \"dimensions\": " ++
      dimensionsField none ++ utf8 ", \"total_documents\": " := by decide
  rw [buildHeaderLine, Export.buildHeaderLine, headerWithCount, start, headerLine, new]

theorem migrateLegacyHeader_new (bytes : Bytes) :
    new.migrateLegacyHeader bytes = Export.migrateLegacyHeader {} bytes := by
  have same : new.buildHeaderLine = Export.buildHeaderLine := funext buildHeaderLine_new
  unfold migrateLegacyHeader
  rw [same]
  rfl

theorem readAppendState_new (bytes : Bytes) :
    new.readAppendState bytes = Export.readAppendState {} bytes := by
  have same : new.migrateLegacyHeader = Export.migrateLegacyHeader {} := funext migrateLegacyHeader_new
  unfold readAppendState
  rw [same]
  rfl

theorem patchHeader_new (bytes : Bytes) (total : Nat) :
    new.patchHeader bytes total = patchCount {} bytes total := by
  unfold patchHeader patchHeaderField patchCount
  dsimp only [new]
  by_cases fits : (countField total).length = countFieldWidth
  · rw [if_neg (not_not.mpr fits), if_neg (not_not.mpr fits)]
    cases Subslice.find totalMarker (readHeaderBytes bytes) with
    | none => rfl
    | some found =>
      dsimp only
      by_cases other : (readHeaderBytes bytes)[found + totalMarker.length + countFieldWidth]? ≠ some comma
      · rw [if_pos other, if_pos other]
        rfl
      · rw [if_neg other, if_neg other]
  · rw [if_pos fits, if_pos fits]
    rfl

/-- An exporter that has met no embedding exports a chunk without one as the exporter of plain
chunks does. -/
theorem exportDocument_new {crates : ExportCrates} {serde : SerdeJson}
    (same : serde.toString = crates.toString) (createdAt : Rfc3339) (file : Option Bytes)
    (chunk : DocumentChunk) :
    new.exportDocument serde (utf8 createdAt.text) file ⟨chunk, none⟩ =
      ⟨(vectorExport crates {} createdAt file chunk).1, new, (vectorExport crates {} createdAt file chunk).2⟩ := by
  have text : EmbeddedChunk.text serde ⟨chunk, none⟩ = Export.serializeDocument crates chunk := by
    rw [EmbeddedChunk.text, Export.serializeDocument, same]
    simp [EmbeddedChunk.value, documentValue, WebfangMetadata.optional]
  have serialized : new.serializeDocument serde ⟨chunk, none⟩ =
      (.ok (Export.serializeDocument crates chunk), new) := by
    rw [serializeDocument, text]
  by_cases first : openForAppend file = []
  · simp [exportDocument, openForDocuments, vectorExport, first, serialized, buildHeaderLine_new, finish,
      patchHeader_new, writeAndClose]
  · simp only [exportDocument, openForDocuments, vectorExport, first, serialized, readAppendState_new,
      reduceCtorEq, or_self, ↓reduceIte]
    cases Export.readAppendState {} (openForAppend file) with
    | error failed => rfl
    | ok read => simp [Except.map, finish, patchHeader_new, writeAndClose]

end VectorExporter

end Webfang.Export
