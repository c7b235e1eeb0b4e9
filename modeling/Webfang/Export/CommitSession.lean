import Webfang.Domain.UrlValidation
import Webfang.Export.Jsonl
import Webfang.Export.RecordStore
import Webfang.Library.LastWriter

/-!
# Commit session

The per-run commit session of `application/export_factory.rs`: the resume-gate decision of
one item and the three operations that move its record. An operation returns the session
and the saves it makes, oldest first. Each takes one clock reading, because an operation
that reads the clock more than once keeps the last reading only.
-/
namespace Webfang.Export

open Library Domain

structure ResumeContext where
  runId : String
  resume : Bool

inductive ItemDecision where
  | alreadyCommitted
  | promoteFromFlushProof
  | driveAndCommit
  deriving DecidableEq, Repr

structure CommitSession where
  ctx : Option ResumeContext
  records : DomainRecords
  /-- Checksums of the lines that were in the output file when the session opened. -/
  hashIndex : Std.ExtTreeSet String
  /-- The `(url, content_hash)` pairs claimed during this run. -/
  driven : List (String × String)
  skippedNonUtf8 : Nat

/-- One `merge_persist`: the working map, and the status the ordering observer is told. -/
structure Save where
  records : DomainRecords
  observed : Option PageStatus

def freshDiscovered (url canonicalUrl runId : String) (now : Int64) :
    Option (Stateful .discovered) :=
  match RawRecord.newDiscovered url canonicalUrl runId now with
  | .ok record => some ⟨record⟩
  | .error _ => none

/-- Walk a record forward along its legal chain. A record that does not reconcile at its
own position starts a fresh lifecycle under the current run. -/
def driveToProcessed (record : RawRecord) (runId : String) (now : Int64) :
    Option (Stateful .processed) :=
  let result : Except ReconcileError (Stateful .processed) :=
    match record.status with
    | .discovered => (Stateful.reconcile .discovered record).map fun s =>
        s.queue.startFetch.fetched.extracted.processed
    | .queued => (Stateful.reconcile .queued record).map fun s =>
        s.startFetch.fetched.extracted.processed
    | .fetching => (Stateful.reconcile .fetching record).map fun s =>
        s.fetched.extracted.processed
    | .fetched => (Stateful.reconcile .fetched record).map fun s => s.extracted.processed
    | .extracted => (Stateful.reconcile .extracted record).map fun s => s.processed
    | .processed => Stateful.reconcile .processed record
    | .exported | .committed => .error (.statusMismatch .processed record.status)
  match result with
  | .ok processed => some processed
  | .error _ =>
    (freshDiscovered record.url record.canonicalUrl runId now).map fun s =>
      s.queue.startFetch.fetched.extracted.processed

/-- The index of a file that may not exist yet. -/
def buildContentHashIndex (fromStr : String → Option Json) (output : Option Bytes) :
    JsonlChecksumIndex :=
  match output with
  | none => .empty
  | some bytes => readJsonlChecksumIndex fromStr bytes

namespace CommitSession

/-- Open a session: the records of the store, when there is one, and the index of the
output file as it stands. The state file may be migrated by the load. -/
def openSession (fromStr : String → Option Json) (ctx : Option ResumeContext)
    (store : RecordStore) (io : Io) (file : StateFile) (output : Option Bytes) :
    CommitSession × StateFile :=
  let (records, file) :=
    match ctx with
    | none => (∅, file)
    | some _ => store.loadOrInit io file
  let index := buildContentHashIndex fromStr output
  ({ ctx
     records
     hashIndex := index.hashes
     driven := []
     skippedNonUtf8 := index.report.skippedNonUtf8 }, file)

/-- Claim one append for this run; `false` when the pair was claimed before. -/
def claimAppend (session : CommitSession) (url contentHash : String) : CommitSession × Bool :=
  if (url, contentHash) ∈ session.driven then (session, false)
  else ({ session with driven := (url, contentHash) :: session.driven }, true)

def decide (crates : UrlCrates) (session : CommitSession) (url : String)
    (freshHash : Option String) : ItemDecision :=
  match session.ctx with
  | none => .driveAndCommit
  | some ctx =>
    if !ctx.resume then .driveAndCommit
    else
      match session.records[crates.canonicalKey url]? with
      | some record =>
        if (Stateful.reconcile .committed record).isOk then .alreadyCommitted
        else
          match record.contentHash with
          | some hash =>
            if session.hashIndex.contains hash then .promoteFromFlushProof else .driveAndCommit
          | none => .driveAndCommit
      | none =>
        match freshHash with
        | some fresh =>
          if session.hashIndex.contains fresh then .promoteFromFlushProof else .driveAndCommit
        | none => .driveAndCommit

/-- The record behind a flush-proof promotion, taken out of the map. -/
def resolveFlushProofRecord (session : CommitSession) (url key runId : String) (now : Int64) :
    CommitSession × Option RawRecord :=
  match session.records[key]? with
  | some record => ({ session with records := session.records.erase key }, some record)
  | none => (session, (freshDiscovered url key runId now).map Stateful.record)

/-- `EXPORTED` records that reconcile are taken as they are, hash and location included;
only lower states walk the chain. -/
def driveToExportFlushed (record : RawRecord) (runId contentHash outputLocation : String)
    (now : Int64) : Option (Stateful .exported) :=
  if record.status = .exported then
    match Stateful.reconcile .exported record with
    | .ok exported => some exported
    | .error _ =>
      (driveToProcessed record runId now).map fun processed =>
        (processed.modify fun payload =>
          { payload with updatedAt := now, contentHash := some contentHash }).exportFlushed
  else
    (driveToProcessed record runId now).map fun processed =>
      (processed.modify fun payload =>
        { payload with
          attempts := payload.attempts + 1
          lastError := none
          updatedAt := now
          contentHash := some contentHash
          outputLocation :=
            if payload.outputLocation.isNone then some outputLocation
            else payload.outputLocation }).exportFlushed

/-- The checkpoint and the commit point shared by both commit paths. -/
def checkpointAndCommit (session : CommitSession) (key : String) (exported : Stateful .exported) :
    CommitSession × List Save :=
  let checkpointed := session.records.insert key exported.record
  match swapToCommitted checkpointed key with
  | (committed, true) =>
    ({ session with records := committed },
      [⟨checkpointed, some .exported⟩, ⟨committed, some .committed⟩])
  | (unchanged, false) =>
    ({ session with records := unchanged }, [⟨checkpointed, some .exported⟩])

def promoteFromFlushProof (crates : UrlCrates) (session : CommitSession)
    (url outputLocation contentHash : String) (now : Int64) : CommitSession × List Save :=
  match session.ctx with
  | none => (session, [])
  | some ctx =>
    let key := crates.canonicalKey url
    match session.resolveFlushProofRecord url key ctx.runId now with
    | (session, none) => (session, [])
    | (session, some record) =>
      match driveToExportFlushed record ctx.runId contentHash outputLocation now with
      | none => (session, [])
      | some exported => session.checkpointAndCommit key exported

def entryOrDiscovered (session : CommitSession) (url key runId : String) (now : Int64) :
    Option RawRecord :=
  match session.records[key]? with
  | some record => some record
  | none => (freshDiscovered url key runId now).map Stateful.record

/-- Record a failure at the record's own state. -/
def failItem (crates : UrlCrates) (session : CommitSession) (url : String)
    (errorClass : ErrorClass) (message : String) (now : Int64) : CommitSession × List Save :=
  match session.ctx with
  | none => (session, [])
  | some ctx =>
    let key := crates.canonicalKey url
    match session.entryOrDiscovered url key ctx.runId now with
    | none => (session, [])
    | some record =>
      let failed := { record with
        attempts := record.attempts + 1
        lastError := some ⟨errorClass, message⟩
        updatedAt := now }
      let records := session.records.insert key failed
      ({ session with records }, [⟨records, none⟩])

/-- The `PROCESSED` start of a commit. Terminal records of an earlier run start over. -/
def processedForCommit (session : CommitSession) (url key runId : String) (now : Int64) :
    Option (Stateful .processed) :=
  match session.records[key]?.filter fun record => !record.status.isTerminal with
  | some record => driveToProcessed record runId now
  | none =>
    (freshDiscovered url key runId now).map fun s =>
      s.queue.startFetch.fetched.extracted.processed

def commitItem (crates : UrlCrates) (session : CommitSession)
    (url contentHash outputLocation runId : String) (now : Int64) : CommitSession × List Save :=
  let key := crates.canonicalKey url
  let taken := { session with records := session.records.erase key }
  match session.processedForCommit url key runId now with
  | none => (taken, [])
  | some processed =>
    let flushed := processed.modify fun payload =>
      { payload with
        runId
        contentHash := some contentHash
        outputLocation := some outputLocation
        attempts := payload.attempts + 1
        lastError := none
        updatedAt := now }
    let (session, saves) := taken.checkpointAndCommit key flushed.exportFlushed
    -- without a context nothing is saved, though the map still moves
    (session, if session.ctx.isSome then saves else [])

/-- Per-URL last-writer-wins: a stored record with a later stamp survives, ties go to the
session. -/
def mergeRecords (mine current : DomainRecords) : DomainRecords :=
  mine.foldl (fun current key record =>
    let newerAlreadyWins := current[key]?.any fun existing => existing.updatedAt > record.updatedAt
    if newerAlreadyWins then current else current.insert key record) current

def mergePersist (mine : DomainRecords) (store : RecordStore) (io : Io) (file : StateFile) :
    Except RecordStoreError Unit × StateFile :=
  store.update io file fun current => .ok (mergeRecords mine current)

/-- The stamp the merge compares. -/
def stamp (record : RawRecord) : Int := record.updatedAt.toInt

/-- The merge resolves each slot of the working map as a last-writer-wins register. -/
theorem getElem?_mergeRecords (mine current : DomainRecords) (key : String) :
    (mergeRecords mine current)[key]? =
      match mine[key]? with
      | some record => LastWriter.resolve stamp current[key]? record
      | none => current[key]? := by
  have body := KeyedMap.getElem?_foldl
    (fun (current : DomainRecords) key record =>
      let newerAlreadyWins :=
        current[key]?.any fun existing => existing.updatedAt > record.updatedAt
      if newerAlreadyWins then current else current.insert key record)
    (LastWriter.resolve stamp)
    (by
      intro current k record k'
      by_cases same : k = k'
      · subst same
        cases held : current[k]? with
        | none => simp [LastWriter.resolve]
        | some existing =>
          by_cases newer : record.updatedAt < existing.updatedAt
          · simp [held, LastWriter.resolve, stamp, newer, Int64.lt_iff_toInt_lt.mp newer]
          · have notNewer : ¬ record.updatedAt.toInt < existing.updatedAt.toInt :=
              fun less => newer (Int64.lt_iff_toInt_lt.mpr less)
            simp [LastWriter.resolve, stamp, newer, notNewer]
      · have distinct : compare k k' ≠ .eq := fun equal => same (Std.LawfulEqOrd.eq_of_compare equal)
        dsimp only
        split <;> simp [distinct, Std.ExtTreeMap.getElem?_insert])
    mine current key
  unfold mergeRecords
  rw [body]
  cases mine[key]? with
  | none => rfl
  | some record => rfl

theorem mergeRecords_allValid {mine current : DomainRecords} (mineValid : AllValid mine)
    (currentValid : AllValid current) : AllValid (mergeRecords mine current) := by
  intro key record found
  rw [getElem?_mergeRecords] at found
  cases own : mine[key]? with
  | none =>
    rw [own] at found
    exact currentValid key record found
  | some written =>
    rw [own] at found
    cases held : current[key]? with
    | none =>
      rw [held] at found
      cases found
      exact mineValid key _ own
    | some existing =>
      rw [held] at found
      simp only [LastWriter.resolve] at found
      split at found
      · cases found
        exact currentValid key _ held
      · cases found
        exact mineValid key _ own

/-- A merge on a file of valid records either fails and leaves the file, or stores the
working map merged into those records. -/
theorem mergePersist_cases {file : StateFile} {records : DomainRecords}
    (stores : Stores file records) (valid : AllValid records) (mine : DomainRecords)
    (store : RecordStore) (io : Io) : (∃ e, mergePersist mine store io file = (.error e, file)) ∨
      ∃ saved, mergePersist mine store io file = (.ok (), saved) ∧
        Stores saved (mergeRecords mine records) := by
  obtain failed | ⟨mutated, saved, done, changed, held⟩ :=
    stores.update valid store io fun current => .ok (mergeRecords mine current)
  · exact .inl failed
  · cases changed
    exact .inr ⟨saved, done, held⟩

end CommitSession

end Webfang.Export
