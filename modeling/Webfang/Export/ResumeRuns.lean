import Webfang.Export.ItemOutcome

/-!
# Killed and resumed runs

Any number of `process_results` calls over one list of results, one output file and one
record store, all with the resume flag. A call is killed between two of its steps, which are
the append of an item and each save it makes, or it is finished. An append may fail in any
way; the record store works.
-/
namespace Webfang.Export

open Library Domain

/-- What the environment does while one call handles one page. -/
structure PageEnv where
  append : AppendEnv := {}
  now : Int64
  stamp : ChunkStamp
  createdAt : Rfc3339

def PageEnv.item (env : PageEnv) : ItemEnv where
  append := env.append
  now := env.now
  stamp := env.stamp
  createdAt := env.createdAt

/-- What all calls have in common. -/
structure Campaign where
  outputPath : String
  store : RecordStore
  format : ExportFormat
  results : List ScrapedContent

/-- One call. -/
structure Attempt where
  runId : String
  env : ScrapedContent → PageEnv

/-- What a call leaves to the next one. -/
structure World where
  outputs : Outputs
  file : StateFile

/-- No output file and an empty record store. -/
def World.start : World := ⟨⟨none, none⟩, .missing⟩

inductive RunEvent where
  /-- The call dies after `done` items; with `cut` it dies in the next item, after its append
  and that many of its saves. -/
  | killed (attempt : Attempt) (done : Nat) (cut : Option Nat)
  | finished (attempt : Attempt)

def RunEvent.attempt : RunEvent → Attempt
  | .killed attempt _ _ => attempt
  | .finished attempt => attempt

def Attempt.context (attempt : Attempt) : ResumeContext := ⟨attempt.runId, true⟩

def pageKey (crates : ExportCrates) (page : ScrapedContent) : String :=
  crates.urls.canonicalKey page.url

/-- A vector append starts from a file whose end decodes, and fails before its cut only. -/
def AppendsWhole (crates : ExportCrates) (state : ExportState) (page : ScrapedContent)
    (env : ItemEnv) : Prop :=
  state.exporter = .vector → Decides crates state page .driveAndCommit →
    FailsEarly env.append ∧ TailDecodes (outputBytes state.outputs.vector)

namespace Campaign

variable (crates : ExportCrates) (campaign : Campaign)

def items (attempt : Attempt) : List (ScrapedContent × ItemEnv) :=
  campaign.results.map fun page => (page, (attempt.env page).item)

def opened (attempt : Attempt) (world : World) : ExportState × StateFile :=
  openState crates (some attempt.context) campaign.store campaign.format {} world.file world.outputs

/-- The call after its first `done` items. -/
def ranTo (attempt : Attempt) (world : World) (done : Nat) : ExportState × StateFile :=
  let (state, file) := campaign.opened crates attempt world
  let (after, traces) :=
    runItems crates campaign.outputPath attempt.runId state ((campaign.items attempt).take done)
  (after, persistTraces campaign.store traces ((campaign.items attempt).take done) file)

def itemAfter (attempt : Attempt) (state : ExportState) (page : ScrapedContent) (env : ItemEnv) :
    ItemStep :=
  processSingleItem crates campaign.outputPath attempt.runId state page env

def killed (attempt : Attempt) (world : World) (done : Nat) (cut : Option Nat) : World :=
  let (state, file) := campaign.ranTo crates attempt world done
  match cut, (campaign.items attempt).drop done with
  | some saved, (page, env) :: _ =>
    let step := campaign.itemAfter crates attempt state page env
    ⟨step.state.outputs, persistAll campaign.store env.ios (step.saves.take saved) file⟩
  | _, _ => ⟨state.outputs, file⟩

def finished (attempt : Attempt) (world : World) : Except ExporterError CallResult :=
  processResults crates campaign.outputPath (some attempt.context) campaign.store campaign.format
    { fallbackRunId := "" } (campaign.items attempt) world.file world.outputs

def after (world : World) : RunEvent → Option World
  | .killed attempt done cut => some (campaign.killed crates attempt world done cut)
  | .finished attempt =>
    match campaign.finished crates attempt world with
    | .ok call => some ⟨call.outputs, call.file⟩
    | .error _ => none

/-! ### What the campaign is about -/

/-- The exporter every call starts with. -/
def exporter : Exporter := createExporter ⟨none, none⟩ campaign.format

/-- Valid results, no two of them with one key or one content. -/
structure WellFormed : Prop where
  format : campaign.format ≠ .auto
  keys : (campaign.results.map (pageKey crates)).Nodup
  contents : (campaign.results.map ScrapedContent.content).Nodup
  exportable : ∀ page ∈ campaign.results, DocumentChunk.Exportable crates page
  named : ∀ page ∈ campaign.results, Named crates page

/-- No two of the contents have one digest. -/
def CollisionFree : Prop :=
  ∀ a ∈ campaign.results, ∀ b ∈ campaign.results,
    crates.sha256Hex a.content = crates.sha256Hex b.content → a.content = b.content

/-- What a whole campaign is for: one record of each result and no other. -/
def ExactlyOnce (outputs : Outputs) : Prop :=
  ∃ appended chunks, appended.Perm campaign.results ∧
    List.Forall₂ (Written crates) appended chunks ∧
    match campaign.format with
    | .vector => VectorLists (outputBytes outputs.vector) (chunks.map (serializeDocument crates))
    | _ => outputBytes outputs.jsonl = (chunks.map (jsonlLine crates)).flatten

/-- Every result is `COMMITTED` in the store. -/
def AllCommitted (file : StateFile) : Prop :=
  ∃ records, Stores file records ∧ ∀ page ∈ campaign.results, ∃ record,
    records[pageKey crates page]? = some record ∧ record.status = .committed

/-! ### The condition on one call -/

/-- The items that a call starts before it ends. -/
def reached : RunEvent → List ScrapedContent
  | .killed _ done none => campaign.results.take done
  | .killed _ done (some _) => campaign.results.take (done + 1)
  | .finished _ => campaign.results

/-- What must hold of a page and its record before a call: the page's record in the output
file, where there is one, is one the resume gate takes into account. -/
structure Resumable (world : World) (records : DomainRecords) (env : PageEnv)
    (page : ScrapedContent) : Prop where
  /-- A page with a line has no record that forgot the line's hash. -/
  hashed : HasRecord crates campaign.exporter world.outputs page.url (contentHash crates page) →
    ∀ record, records[pageKey crates page]? = some record → record.contentHash ≠ none
  /-- The gate looks for proofs in the JSONL file only. -/
  vector : campaign.format = .vector →
    HasRecord crates campaign.exporter world.outputs page.url (contentHash crates page) →
      ∃ record, records[pageKey crates page]? = some record ∧ record.status = .committed
  /-- An unseen page is not the torn rest of a line, which the gate takes for a whole one. -/
  torn : campaign.format ≠ .vector → records[pageKey crates page]? = none →
    lineChecksum crates.fromStr (tornBytes world.outputs.jsonl) ≠ some (contentHash crates page)
  /-- The record of a failed append is not from the future, and its attempts can be counted on. -/
  retried : ∀ record, records[pageKey crates page]? = some record → record.contentHash = none →
    record.updatedAt ≤ env.now ∧ record.attempts + 1 ≠ 0

/-- Every item that the call starts appends whole documents. -/
def AppendsAll (world : World) : RunEvent → Prop
  | .killed attempt done cut =>
    EachItem crates campaign.outputPath attempt.runId (AppendsWhole crates)
        (campaign.opened crates attempt world).1 ((campaign.items attempt).take done) ∧
      ∀ saved page env rest, cut = some saved → (campaign.items attempt).drop done = (page, env) :: rest →
        AppendsWhole crates (campaign.ranTo crates attempt world done).1 page env
  | .finished attempt =>
    EachItem crates campaign.outputPath attempt.runId (AppendsWhole crates)
      (campaign.opened crates attempt world).1 (campaign.items attempt)

/-- The condition on a call, in the world it starts from. -/
structure Guarded (world : World) (event : RunEvent) : Prop where
  /-- The JSON crate reads back what the call writes. -/
  written : ∀ page ∈ campaign.reached event,
    Written crates page (chunkOf crates page (event.attempt.env page).item)
  resumable : ∀ page ∈ campaign.reached event, campaign.Resumable crates world
    (campaign.opened crates event.attempt world).1.session.records (event.attempt.env page) page
  appends : campaign.AppendsAll crates world event
  /-- The count of documents has a field of fixed width. -/
  counted : campaign.format = .vector → campaign.results.length < 10 ^ countFieldWidth

/-- The worlds that guarded calls lead to. -/
def Reached (world : World) : Prop :=
  Reachable (fun world event world' => campaign.after crates world event = some world')
    (campaign.Guarded crates) World.start world

end Campaign

end Webfang.Export
