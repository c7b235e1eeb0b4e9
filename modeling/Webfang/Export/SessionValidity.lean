import Webfang.Export.CommitSession
import Webfang.Library.Transition

/-!
# Validity of what a commit session holds and saves

Every operation of the session keeps the invariant table on each record, with one
exception: `failItem` on a record that is already `COMMITTED` attaches an error to it, which
the table forbids. `runs_keep_valid` states the table for all runs without that step.
-/
namespace Webfang.Export

open Library Domain

variable {crates : UrlCrates}

/-! ### The drive chain -/

theorem driveToProcessed_open {record : RawRecord} (open_ : record.status.isTerminal = false)
    (runId : String) (now : Int64) :
    driveToProcessed record runId now = some ⟨{ record with status := .processed }⟩ := by
  have reconciles (state : PageStatus) (here : record.status = state) :=
    reconcile_nonterminal here (here ▸ open_)
  unfold driveToProcessed
  split
  next here => rw [reconciles _ here]; rfl
  next here => rw [reconciles _ here]; rfl
  next here => rw [reconciles _ here]; rfl
  next here => rw [reconciles _ here]; rfl
  next here => rw [reconciles _ here]; rfl
  next here =>
    rw [reconciles _ here]
    cases record
    cases here
    rfl
  next here => rw [here] at open_; cases open_
  next here => rw [here] at open_; cases open_

theorem driveToProcessed_terminal {record : RawRecord} (terminal : record.status.isTerminal = true)
    (runId : String) (now : Int64) :
    driveToProcessed record runId now =
      (freshDiscovered record.url record.canonicalUrl runId now).map fun s =>
        ⟨{ s.record with status := .processed }⟩ := by
  unfold driveToProcessed
  split
  all_goals try
    next here => rw [here] at terminal; cases terminal
  all_goals rfl

theorem freshDiscovered_eq_some {url canonicalUrl runId : String} {now : Int64}
    {s : Stateful .discovered} (created : freshDiscovered url canonicalUrl runId now = some s) :
    isMeaninglessIdentity url = false ∧ s.record = {
      url, canonicalUrl, runId, updatedAt := now
      contentHash := none
      attempts := 0
      status := .discovered
      lastError := none
      outputLocation := none } := by
  unfold freshDiscovered RawRecord.newDiscovered at created
  by_cases blankUrl : Text.isBlank url = true
  · simp [blankUrl] at created
  · by_cases blankKey : Text.isBlank canonicalUrl = true
    · simp [blankUrl, blankKey] at created
    · simp only [blankUrl, blankKey, Bool.false_eq_true, if_false, Option.some.injEq] at created
      rw [← created]
      exact ⟨by simpa [isMeaninglessIdentity] using blankUrl, rfl⟩

/-- The chain ends in `PROCESSED` under a URL that addresses a page. -/
theorem driveToProcessed_identity {record : RawRecord} {runId : String} {now : Int64}
    {processed : Stateful .processed} (identity : isMeaninglessIdentity record.url = false)
    (driven : driveToProcessed record runId now = some processed) :
    isMeaninglessIdentity processed.record.url = false := by
  cases open_ : record.status.isTerminal with
  | false =>
    rw [driveToProcessed_open open_] at driven
    cases driven
    exact identity
  | true =>
    rw [driveToProcessed_terminal open_] at driven
    obtain ⟨s, created, rfl⟩ := Option.map_eq_some_iff.mp driven
    obtain ⟨named, made⟩ := freshDiscovered_eq_some created
    simpa [made] using named

/-- A record with location and hash set is a valid `EXPORTED` record. -/
theorem exportFlushed_valid (s : Stateful .processed)
    (identity : isMeaninglessIdentity s.record.url = false)
    (output : s.record.outputLocation.isSome) (hash : s.record.contentHash.isSome) :
    s.exportFlushed.record.Valid where
  identity := identity
  flushed _ _ := ⟨output, hash⟩
  clean here := by cases here
  driven here := by cases here

theorem freshDiscovered_valid {url canonicalUrl runId : String} {now : Int64}
    {s : Stateful .discovered} (created : freshDiscovered url canonicalUrl runId now = some s) :
    s.record.Valid ∧ s.record.status = .discovered := by
  obtain ⟨identity, made⟩ := freshDiscovered_eq_some created
  have here : s.record.status = .discovered := by rw [made]
  exact ⟨.of_nonterminal (by simpa [made] using identity) (by rw [here]; rfl), here⟩

theorem driveToExportFlushed_valid {record : RawRecord} {runId contentHash outputLocation : String}
    {now : Int64} {exported : Stateful .exported} (valid : record.Valid)
    (driven : CommitSession.driveToExportFlushed record runId contentHash outputLocation now =
      some exported) :
    exported.record.Valid := by
  unfold CommitSession.driveToExportFlushed at driven
  split at driven
  next here =>
    rw [valid.reconcile here] at driven
    cases driven
    exact valid
  next =>
    obtain ⟨processed, drive, rfl⟩ := Option.map_eq_some_iff.mp driven
    apply exportFlushed_valid
    · simpa using driveToProcessed_identity valid.identity drive
    · simp only [Stateful.record_modify]
      split
      · rfl
      next present => simpa [← Option.isSome_iff_ne_none] using present
    · rfl

/-! ### The operations -/

def KeepsValid (outcome : CommitSession × List Save) : Prop :=
  AllValid outcome.1.records ∧ ∀ save ∈ outcome.2, AllValid save.records

theorem keepsValid_unsaved {session : CommitSession} (valid : AllValid session.records) :
    KeepsValid (session, []) :=
  ⟨valid, by simp⟩

theorem checkpointAndCommit_keepsValid {session : CommitSession} (valid : AllValid session.records)
    (key : String) {exported : Stateful .exported} (flushed : exported.record.Valid) :
    KeepsValid (session.checkpointAndCommit key exported) := by
  have checkpointed := valid.insert key flushed
  have committed := swapToCommitted_allValid checkpointed key
  unfold CommitSession.checkpointAndCommit
  dsimp only
  split
  next records swapped =>
    rw [swapped] at committed
    refine ⟨committed, ?_⟩
    intro save member
    rcases List.mem_pair.mp member with rfl | rfl
    · exact checkpointed
    · exact committed
  next records swapped =>
    rw [swapped] at committed
    refine ⟨committed, ?_⟩
    intro save member
    rw [List.mem_singleton.mp member]
    exact checkpointed

theorem resolveFlushProofRecord_valid {session taken : CommitSession}
    (valid : AllValid session.records) {url key runId : String} {now : Int64}
    {resolved : Option RawRecord}
    (returned : session.resolveFlushProofRecord url key runId now = (taken, resolved)) :
    AllValid taken.records ∧ ∀ record, resolved = some record → record.Valid := by
  unfold CommitSession.resolveFlushProofRecord at returned
  split at returned
  next record found =>
    cases returned
    refine ⟨valid.erase key, ?_⟩
    rintro _ ⟨⟩
    exact valid _ _ found
  next =>
    cases returned
    refine ⟨valid, ?_⟩
    intro record mapped
    obtain ⟨fresh, created, rfl⟩ := Option.map_eq_some_iff.mp mapped
    exact (freshDiscovered_valid created).1

theorem promoteFromFlushProof_keepsValid {session : CommitSession}
    (valid : AllValid session.records) (url outputLocation contentHash : String) (now : Int64) :
    KeepsValid (session.promoteFromFlushProof crates url outputLocation contentHash now) := by
  unfold CommitSession.promoteFromFlushProof
  split
  next => exact keepsValid_unsaved valid
  next ctx _ =>
    dsimp only
    split
    next returned => exact keepsValid_unsaved (resolveFlushProofRecord_valid valid returned).1
    next taken record returned =>
      obtain ⟨takenValid, recordValid⟩ := resolveFlushProofRecord_valid valid returned
      split
      next => exact keepsValid_unsaved takenValid
      next driven =>
        exact checkpointAndCommit_keepsValid takenValid _
          (driveToExportFlushed_valid (recordValid _ rfl) driven)

theorem processedForCommit_identity {session : CommitSession} (valid : AllValid session.records)
    {url key runId : String} {now : Int64} {processed : Stateful .processed}
    (driven : session.processedForCommit url key runId now = some processed) :
    isMeaninglessIdentity processed.record.url = false := by
  unfold CommitSession.processedForCommit at driven
  split at driven
  next record existing =>
    obtain ⟨found, -⟩ := Option.filter_eq_some_iff.mp existing
    exact driveToProcessed_identity (valid _ _ found).identity driven
  next =>
    obtain ⟨s, created, rfl⟩ := Option.map_eq_some_iff.mp driven
    exact (freshDiscovered_valid created).1.identity

theorem commitItem_keepsValid {session : CommitSession} (valid : AllValid session.records)
    (url contentHash outputLocation runId : String) (now : Int64) :
    KeepsValid (session.commitItem crates url contentHash outputLocation runId now) := by
  have taken := valid.erase (crates.canonicalKey url)
  unfold CommitSession.commitItem
  dsimp only
  split
  next => exact keepsValid_unsaved taken
  next processed driven =>
    have identity := processedForCommit_identity valid driven
    -- with hash and location set the flushed record satisfies its row
    have flushed : (processed.modify fun payload =>
        { payload with
          runId
          contentHash := some contentHash
          outputLocation := some outputLocation
          attempts := payload.attempts + 1
          lastError := none
          updatedAt := now }).exportFlushed.record.Valid :=
      exportFlushed_valid _ identity rfl rfl
    have kept : KeepsValid (CommitSession.checkpointAndCommit
        { session with records := session.records.erase (crates.canonicalKey url) } _ _) :=
      checkpointAndCommit_keepsValid taken (crates.canonicalKey url) flushed
    refine ⟨kept.1, ?_⟩
    intro save member
    dsimp only at member
    split at member
    · exact kept.2 save member
    · cases member

/-- A failure leaves the status alone, so the table can object to a `COMMITTED` record only. -/
theorem failItem_keepsValid {session : CommitSession} (valid : AllValid session.records)
    {url : String}
    (uncommitted : ∀ record, session.records[crates.canonicalKey url]? = some record →
      record.status ≠ .committed) (errorClass : ErrorClass) (message : String) (now : Int64) :
    KeepsValid (session.failItem crates url errorClass message now) := by
  unfold CommitSession.failItem
  split
  next => exact keepsValid_unsaved valid
  next ctx _ =>
    dsimp only
    split
    next => exact keepsValid_unsaved valid
    next record entry =>
      have entryValid : record.Valid ∧ record.status ≠ .committed := by
        unfold CommitSession.entryOrDiscovered at entry
        split at entry
        next found =>
          cases entry
          exact ⟨valid _ _ found, uncommitted _ found⟩
        next =>
          obtain ⟨fresh, created, rfl⟩ := Option.map_eq_some_iff.mp entry
          obtain ⟨freshValid, here⟩ := freshDiscovered_valid created
          exact ⟨freshValid, by simp [here]⟩
      obtain ⟨recordValid, open_⟩ := entryValid
      -- only the row of `COMMITTED` asks for no error
      have failedValid : ({ record with
          attempts := record.attempts + 1
          lastError := some ⟨errorClass, message⟩
          updatedAt := now } : RawRecord).Valid :=
        ⟨recordValid.identity, recordValid.flushed, fun here => absurd here open_,
          fun here => absurd here open_⟩
      have inserted := valid.insert (crates.canonicalKey url) failedValid
      refine ⟨inserted, ?_⟩
      intro save member
      rw [List.mem_singleton.mp member]
      exact inserted

/-! ### Runs of the session -/

inductive SessionOp where
  | commitItem (url contentHash outputLocation runId : String) (now : Int64)
  | failItem (url : String) (errorClass : ErrorClass) (message : String) (now : Int64)
  | promoteFromFlushProof (url outputLocation contentHash : String) (now : Int64)

def SessionOp.apply (crates : UrlCrates) (session : CommitSession) :
    SessionOp → CommitSession × List Save
  | .commitItem url contentHash outputLocation runId now =>
    session.commitItem crates url contentHash outputLocation runId now
  | .failItem url errorClass message now => session.failItem crates url errorClass message now
  | .promoteFromFlushProof url outputLocation contentHash now =>
    session.promoteFromFlushProof crates url outputLocation contentHash now

/-- A session over a state file, with everything it has saved so far. -/
structure SessionState where
  session : CommitSession
  file : StateFile
  saved : List Save

/-- The transactions of one operation, each with its own file-system outcome. -/
def persistAll (store : RecordStore) : (ios : Nat → Io) → List Save → StateFile → StateFile
  | _, [], file => file
  | ios, save :: rest, file =>
    persistAll store (fun n => ios (n + 1)) rest
      (CommitSession.mergePersist save.records store (ios 0) file).2

structure SessionEvent where
  op : SessionOp
  ios : Nat → Io

def SessionState.after (crates : UrlCrates) (store : RecordStore) (state : SessionState)
    (event : SessionEvent) : SessionState :=
  let (session, saves) := event.op.apply crates state.session
  { session
    file := persistAll store event.ios saves state.file
    saved := state.saved ++ saves }

def SessionState.Step (crates : UrlCrates) (store : RecordStore) (state : SessionState)
    (event : SessionEvent) (next : SessionState) : Prop :=
  next = state.after crates store event

/-- The event does not record a failure on a page this session holds as `COMMITTED`. -/
def SparesCommitted (crates : UrlCrates) (state : SessionState) (event : SessionEvent) : Prop :=
  ∀ url errorClass message now, event.op = .failItem url errorClass message now →
    state.session.ctx.isSome → ∀ record,
      state.session.records[crates.canonicalKey url]? = some record → record.status ≠ .committed

/-- The session and its file hold valid records only, and so did everything it saved. -/
structure SessionState.AllValid (state : SessionState) : Prop where
  held : Domain.AllValid state.session.records
  saved : ∀ save ∈ state.saved, Domain.AllValid save.records
  stored : ∃ records, Stores state.file records ∧ Domain.AllValid records

theorem apply_keepsValid {session : CommitSession} (valid : AllValid session.records)
    {op : SessionOp}
    (spares : ∀ url errorClass message now, op = .failItem url errorClass message now →
      session.ctx.isSome → ∀ record, session.records[crates.canonicalKey url]? = some record →
        record.status ≠ .committed) : KeepsValid (op.apply crates session) := by
  cases op with
  | commitItem url contentHash outputLocation runId now =>
    exact commitItem_keepsValid valid url contentHash outputLocation runId now
  | failItem url errorClass message now =>
    cases context : session.ctx with
    | none => simpa [SessionOp.apply, CommitSession.failItem, context] using keepsValid_unsaved valid
    | some ctx =>
      exact failItem_keepsValid valid (spares url errorClass message now rfl (by simp [context]))
        errorClass message now
  | promoteFromFlushProof url outputLocation contentHash now =>
    exact promoteFromFlushProof_keepsValid valid url outputLocation contentHash now

theorem persistAll_stores {store : RecordStore} {saves : List Save}
    (saved : ∀ save ∈ saves, AllValid save.records) {ios : Nat → Io} {file : StateFile}
    (stored : ∃ records, Stores file records ∧ AllValid records) :
    ∃ records, Stores (persistAll store ios saves file) records ∧ AllValid records := by
  induction saves generalizing ios file with
  | nil => exact stored
  | cons save rest ih =>
    refine ih (fun other member => saved other (List.mem_cons_of_mem _ member)) ?_
    obtain ⟨records, stores, valid⟩ := stored
    obtain ⟨e, failed⟩ | ⟨merged, done, held⟩ :=
      CommitSession.mergePersist_cases stores valid save.records store (ios 0)
    · exact ⟨records, by rwa [failed], valid⟩
    · rw [done]
      exact ⟨_, held, CommitSession.mergeRecords_allValid (saved save List.mem_cons_self) valid⟩

theorem after_allValid {store : RecordStore} {state : SessionState} {event : SessionEvent}
    (valid : state.AllValid) (spares : SparesCommitted crates state event) :
    (state.after crates store event).AllValid := by
  obtain ⟨held, saves⟩ := apply_keepsValid valid.held spares
  refine ⟨held, ?_, persistAll_stores saves valid.stored⟩
  intro save member
  rcases List.mem_append.mp member with earlier | now
  · exact valid.saved save earlier
  · exact saves save now

/-- In every run whose failures spare the pages held as `COMMITTED`, all records the
session holds, has saved, or left in the store satisfy the table, and the next load
quarantines none of them. -/
theorem session_keeps_table {store : RecordStore} {start state : SessionState}
    (initial : start.AllValid)
    (reached : Reachable (SessionState.Step crates store) (SparesCommitted crates) start state) :
    Domain.AllValid state.session.records ∧
      (∀ save ∈ state.saved, Domain.AllValid save.records) ∧
      ∃ records, Stores state.file records ∧
        RecordStore.validateAndQuarantine records = records := by
  have valid : state.AllValid := reached.invariant initial fun s e s' sValid spares taken => by
    rw [taken]
    exact after_allValid sValid spares
  obtain ⟨records, stores, storedValid⟩ := valid.stored
  exact ⟨valid.held, valid.saved, records, stores, partitionValid_eq_self storedValid⟩

/-! A run over an empty store: the page commits, then a second item of it fails. -/

namespace FailureAfterCommit

def page : String := "https://example.com/a"

def store : RecordStore := ⟨"example.com"⟩

def start : SessionState where
  session := {
    ctx := some ⟨"run", true⟩
    records := ∅
    hashIndex := ∅
    driven := []
    skippedNonUtf8 := 0 }
  file := .missing
  saved := []

def commit : SessionEvent where
  op := .commitItem page "hash" "export.jsonl" "run" 1
  ios _ := {}

def failure : SessionEvent where
  op := .failItem page .internalFatal "disk full" 2
  ios _ := {}

def committed : SessionState := start.after plainUrls store commit

def failed : SessionState := committed.after plainUrls store failure

theorem start_allValid : start.AllValid where
  held := AllValid.empty
  saved save member := by cases member
  stored := ⟨∅, .missing, AllValid.empty⟩

end FailureAfterCommit

open FailureAfterCommit in
/-- The table does not survive a failure recorded on a committed page: the session holds a
`COMMITTED` record with an error, and the next load drops the page. -/
theorem failItem_breaks_table :
    start.AllValid ∧
      Reachable (SessionState.Step plainUrls store) (fun _ _ => True) start failed ∧
      ¬ Domain.AllValid failed.session.records ∧
      (store.loadOrInit {} committed.file).1[page]?.isSome ∧
      (store.loadOrInit {} failed.file).1[page]? = none := by
  have violated : (failed.session.records[page]?).map invariantViolation =
      some (some "committed must not carry last_error") := by decide
  refine ⟨start_allValid, .step (.step .start trivial rfl) trivial rfl, ?_, by decide, by decide⟩
  intro valid
  obtain ⟨record, found, reason⟩ := Option.map_eq_some_iff.mp violated
  rw [(invariantViolation_eq_none_iff record).mpr (valid page record found)] at reason
  cases reason

open FailureAfterCommit in
/-- One guarded run: the page fails twice before it commits. -/
theorem session_keeps_table_commit :
    let failing := (start.after plainUrls store failure).after plainUrls store failure
    let final := failing.after plainUrls store commit
    Domain.AllValid final.session.records ∧
      (∀ save ∈ final.saved, Domain.AllValid save.records) ∧
      ∃ records, Stores final.file records ∧ RecordStore.validateAndQuarantine records = records := by
  have below : ((start.after plainUrls store failure).session.records[page]?).all
      (fun record => record.status != .committed) = true := by decide
  refine session_keeps_table start_allValid
    (.step (e := commit) (.step (e := failure) (.step (e := failure) .start ?_ rfl) ?_ rfl) ?_ rfl)
  · rintro url errorClass message now ⟨⟩ - record found
    cases found
  · rintro url errorClass message now ⟨⟩ - record found
    rw [show plainUrls.canonicalKey page = page from rfl] at found
    simpa [found] using below
  · rintro url errorClass message now ⟨⟩

end Webfang.Export
