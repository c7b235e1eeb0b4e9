import Webfang.Export.SessionEffects
import Webfang.Export.VectorExporter

/-!
# Processing the results of a crawl

`process_results` of `application/export_factory.rs`: the exporter of the requested format,
the sequence of one item (claim, gate, append, checkpoint, commit) and the loop over all
items. What the environment does during one item is its `ItemEnv`.
-/
namespace Webfang.Export

open Domain

/-- The two files a call may write, `<name>.jsonl` and `<name>.json`. -/
structure Outputs where
  jsonl : Option Bytes
  vector : Option Bytes

inductive ExportFormat where
  | jsonl
  | vector
  | auto
  deriving DecidableEq, Repr

inductive Exporter where
  | jsonl (writer : JsonlWriter)
  | vector
  deriving DecidableEq, Repr

/-- `create_exporter`: `auto` looks for an existing file, the JSONL one first. -/
def createExporter (outputs : Outputs) : ExportFormat → Exporter
  | .jsonl => .jsonl .unopened
  | .vector => .vector
  | .auto =>
    if outputs.jsonl.isSome then .jsonl .unopened
    else if outputs.vector.isSome then .vector
    else .jsonl .unopened

structure ItemEnv where
  append : AppendEnv := {}
  now : Int64
  stamp : ChunkStamp
  createdAt : Rfc3339
  /-- The cancellation token is set when the item is done. -/
  cancelled : Bool := false
  /-- The file-system calls of the item's record-store transactions. -/
  ios : Nat → Io := fun _ => {}

structure ExportState where
  session : CommitSession
  exporter : Exporter
  outputs : Outputs

inductive SingleItemOutcome where
  | driven
  | skipped
  | cancelled
  deriving DecidableEq, Repr

/-- The way an item took. -/
inductive Route where
  | duplicate
  | alreadyCommitted
  | promoted
  | invalid
  | exported
  | exportFailed
  deriving DecidableEq, Repr

structure ItemStep where
  state : ExportState
  outcome : SingleItemOutcome
  route : Route
  saves : List Save

variable (crates : ExportCrates) (outputPath : String)

def Exporter.export (env : ItemEnv) (exporter : Exporter) (outputs : Outputs)
    (document : DocumentChunk) : Except ExporterError Unit × Exporter × Outputs :=
  match exporter with
  | .jsonl writer =>
    let appended := jsonlExport crates outputPath env.append writer outputs.jsonl document
    (appended.result, .jsonl appended.writer, { outputs with jsonl := appended.file })
  | .vector =>
    let (result, file) := vectorExport crates env.append env.createdAt outputs.vector document
    (result, .vector, { outputs with vector := file })

def contentHash (result : ScrapedContent) : String := crates.sha256Hex result.content

def chunkOf (result : ScrapedContent) (env : ItemEnv) : DocumentChunk :=
  DocumentChunk.fromScrapedContent crates result env.stamp

/-- A token only exists with a resume context. -/
def cancelledIn (session : CommitSession) (env : ItemEnv) : Bool :=
  session.ctx.isSome && env.cancelled

/-- `DriveAndCommit`: validate, append, then commit or record the failure. -/
def driveItem (runId : String) (state : ExportState) (result : ScrapedContent) (env : ItemEnv) :
    ItemStep :=
  let fail (session : CommitSession) (e : ExporterError) :=
    session.failItem crates.urls result.url (classifyExportFailure e) e.text env.now
  let finish (session : CommitSession) (outcome : SingleItemOutcome) :=
    if cancelledIn session env then SingleItemOutcome.cancelled else outcome
  match (chunkOf crates result env).validate crates with
  | .error e =>
    let (session, saves) := fail state.session (.invalidConfig e.text)
    ⟨{ state with session }, .skipped, .invalid, saves⟩
  | .ok validated =>
    match state.exporter.export crates outputPath env state.outputs validated with
    | (.ok (), exporter, outputs) =>
      let (session, saves) := state.session.commitItem crates.urls result.url
        (contentHash crates result) outputPath runId env.now
      ⟨⟨session, exporter, outputs⟩, finish session .driven, .exported, saves⟩
    | (.error e, exporter, outputs) =>
      let (session, saves) := fail state.session e
      ⟨⟨session, exporter, outputs⟩, finish session .skipped, .exportFailed, saves⟩

def processSingleItem (runId : String) (state : ExportState) (result : ScrapedContent)
    (env : ItemEnv) : ItemStep :=
  let hash := contentHash crates result
  let (session, fresh) := state.session.claimAppend result.url hash
  if !fresh then ⟨state, .skipped, .duplicate, []⟩
  else
    let state := { state with session }
    match session.decide crates.urls result.url (some hash) with
    | .alreadyCommitted => ⟨state, .skipped, .alreadyCommitted, []⟩
    | .promoteFromFlushProof =>
      let (session, saves) :=
        session.promoteFromFlushProof crates.urls result.url outputPath hash env.now
      ⟨{ state with session },
        if cancelledIn session env then .cancelled else .driven, .promoted, saves⟩
    | .driveAndCommit => driveItem crates outputPath runId state result env

/-- One item as the loop saw it, with the record under its key afterwards. -/
structure ItemTrace where
  url : String
  outcome : SingleItemOutcome
  route : Route
  record : Option RawRecord
  saves : List Save

def ItemStep.trace (step : ItemStep) (url : String) : ItemTrace where
  url
  outcome := step.outcome
  route := step.route
  record := step.state.session.records[crates.urls.canonicalKey url]?
  saves := step.saves

def ItemTrace.advanced (trace : ItemTrace) : Option RawRecord :=
  if trace.route = .promoted ∨ trace.route = .exported then
    trace.record.filter fun record => record.status = .committed
  else none

/-- The loop; it stops after the item during which the cancellation was seen. -/
def runItems (runId : String) : ExportState → List (ScrapedContent × ItemEnv) →
    ExportState × List ItemTrace
  | state, [] => (state, [])
  | state, (result, env) :: rest =>
    let step := processSingleItem crates outputPath runId state result env
    if step.outcome = .cancelled then (step.state, [step.trace crates result.url])
    else
      let (final, traces) := runItems runId step.state rest
      (final, step.trace crates result.url :: traces)

def persistTraces (store : RecordStore) : List ItemTrace → List (ScrapedContent × ItemEnv) →
    StateFile → StateFile
  | trace :: traces, (_, env) :: rest, file =>
    persistTraces store traces rest (persistAll store env.ios trace.saves file)
  | _, _, file => file

structure CallEnv where
  /-- The error of creating the output directory, if any. -/
  directoryError : Option String := none
  load : Io := {}
  finalPersist : Io := {}
  /-- The run id of a call without a context. -/
  fallbackRunId : String

structure CallResult where
  processedUrls : List String
  traces : List ItemTrace
  outputs : Outputs
  file : StateFile

def openState (ctx : Option ResumeContext) (store : RecordStore) (format : ExportFormat)
    (load : Io) (file : StateFile) (outputs : Outputs) : ExportState × StateFile :=
  -- the index is that of the JSONL file, whatever the format
  let (session, file) :=
    CommitSession.openSession crates.fromStr ctx store load file outputs.jsonl
  (⟨session, createExporter outputs format, outputs⟩, file)

def processResults (ctx : Option ResumeContext) (store : RecordStore) (format : ExportFormat)
    (env : CallEnv) (results : List (ScrapedContent × ItemEnv)) (file : StateFile)
    (outputs : Outputs) : Except ExporterError CallResult :=
  match env.directoryError with
  | some reason => .error (.directoryCreation reason)
  | none =>
    let (state, file) := openState crates ctx store format env.load file outputs
    let runId := ctx.elim env.fallbackRunId ResumeContext.runId
    let (final, traces) := runItems crates outputPath runId state results
    let file := persistTraces store traces results file
    let file :=
      match ctx with
      | none => file
      | some _ => (CommitSession.mergePersist final.session.records store env.finalPersist file).2
    .ok {
      processedUrls := (traces.filter fun trace => trace.outcome = .driven).map ItemTrace.url
      traces
      outputs := final.outputs
      file }

end Webfang.Export
