import Webfang.Export.AppendLog
import Webfang.Export.CommittedLines

/-!
# One page in a resumed run

The states a page's record goes through over runs that are killed and resumed, what the resume
gate decides in each, and the records one item saves. Every record that is saved states no
more than what was appended before it.
-/
namespace Webfang.Export

open Library Domain CommitSession

/-! ### The record of a page -/

/-- The append is proven and only the commit is left. -/
structure Flushed (hash : String) (record : RawRecord) : Prop where
  here : record.status = .exported
  hashed : record.contentHash = some hash
  clean : record.lastError = none
  driven : record.attempts ≠ 0

/-- A page with no record, or with the record of a failed append. -/
structure Unproven (record : RawRecord) : Prop where
  here : record.status = .discovered
  unhashed : record.contentHash = none

/-- What the record of a page says, where `appended` states that the page was appended. -/
inductive SlotState (hash : String) (appended : Prop) : Option RawRecord → Prop
  | unseen : SlotState hash appended none
  | failing {record : RawRecord} (unproven : Unproven record) : SlotState hash appended (some record)
  | flushed {record : RawRecord} (proof : Flushed hash record) (before : appended) :
      SlotState hash appended (some record)
  | committed {record : RawRecord} (here : record.status = .committed) (before : appended) :
      SlotState hash appended (some record)

theorem SlotState.mono {hash : String} {appended more : Prop} {slot : Option RawRecord}
    (state : SlotState hash appended slot) (implies : appended → more) : SlotState hash more slot := by
  cases state with
  | unseen => exact .unseen
  | failing unproven => exact .failing unproven
  | flushed proof before => exact .flushed proof (implies before)
  | committed here before => exact .committed here (implies before)

/-- A page whose URL and key are no blank texts, as those of every parsed URL. -/
structure Named (crates : ExportCrates) (page : ScrapedContent) : Prop where
  url : Text.isBlank page.url = false
  key : Text.isBlank (crates.urls.canonicalKey page.url) = false

theorem freshDiscovered_of_named {crates : ExportCrates} {page : ScrapedContent}
    (named : Named crates page) (runId : String) (now : Int64) :
    ∃ fresh, freshDiscovered page.url (crates.urls.canonicalKey page.url) runId now = some fresh ∧
      fresh.record.Valid ∧ Unproven fresh.record ∧ fresh.record.attempts = 0 ∧
        fresh.record.updatedAt = now := by
  cases created : freshDiscovered page.url (crates.urls.canonicalKey page.url) runId now with
  | none =>
    rw [freshDiscovered_eq, named.url, named.key] at created
    cases created
  | some fresh =>
    obtain ⟨-, made⟩ := freshDiscovered_eq_some created
    obtain ⟨valid, here⟩ := freshDiscovered_valid created
    exact ⟨fresh, rfl, valid, ⟨here, by rw [made]⟩, by rw [made], by rw [made]⟩

/-! ### What the operations save -/

theorem insert_insert_self (records : DomainRecords) (key : String) (first second : RawRecord) :
    (records.insert key first).insert key second = records.insert key second := by
  apply Std.ExtTreeMap.ext_getElem?
  intro k
  by_cases here : key = k <;> simp [here, Std.ExtTreeMap.getElem?_insert]

theorem insert_erase_self (records : DomainRecords) (key : String) (record : RawRecord) :
    (records.erase key).insert key record = records.insert key record := by
  apply Std.ExtTreeMap.ext_getElem?
  intro k
  by_cases here : key = k <;>
    simp [here, Std.ExtTreeMap.getElem?_insert, Std.ExtTreeMap.getElem?_erase]

def asCommitted (record : RawRecord) : RawRecord := { record with status := .committed }

def withRecord (session : CommitSession) (key : String) (record : RawRecord) : CommitSession :=
  { session with records := session.records.insert key record }

def commitSaves (records : DomainRecords) (key : String) (record : RawRecord) : List Save :=
  [⟨records.insert key record, some .exported⟩,
    ⟨records.insert key (asCommitted record), some .committed⟩]

theorem checkpointAndCommit_flushed (session : CommitSession) (key : String)
    (exported : Stateful .exported) {hash : String} (valid : exported.record.Valid)
    (flushed : Flushed hash exported.record) :
    session.checkpointAndCommit key exported =
      (withRecord session key (asCommitted exported.record),
        commitSaves session.records key exported.record) := by
  have accepted := tryCommitExported_of_valid valid flushed.here flushed.clean flushed.driven
  rw [saves_checkpointAndCommit session key accepted, insert_insert_self]
  rfl

/-- The operation commits the page's record, by way of a flushed one that is not older. -/
def Commits (session : CommitSession) (key hash : String) (outcome : CommitSession × List Save) :
    Prop :=
  ∃ record, record.Valid ∧ Flushed hash record ∧
    (∀ old, session.records[key]? = some old → old.updatedAt ≤ record.updatedAt) ∧
    outcome = (withRecord session key (asCommitted record), commitSaves session.records key record)

variable {crates : ExportCrates} {session : CommitSession} {page : ScrapedContent} {hash : String}

theorem promoteFromFlushProof_commits (crates : ExportCrates) (session : CommitSession)
    {ctx : ResumeContext} (context : session.ctx = some ctx)
    (valid : AllValid session.records) (named : Named crates page)
    (slot : session.records[crates.urls.canonicalKey page.url]? = none ∨
      ∃ record, session.records[crates.urls.canonicalKey page.url]? = some record ∧
        Flushed hash record) (outputLocation : String) (now : Int64) :
    Commits session (crates.urls.canonicalKey page.url) hash
      (session.promoteFromFlushProof crates.urls page.url outputLocation hash now) := by
  obtain ⟨_, records, hashIndex, driven, skipped⟩ := session
  cases context
  unfold promoteFromFlushProof resolveFlushProofRecord
  dsimp only at slot valid ⊢
  obtain unseen | ⟨record, found, flushed⟩ := slot
  · -- no record: a fresh one walks the whole chain
    obtain ⟨fresh, created, freshValid, unproven, attempts, stamped⟩ :=
      freshDiscovered_of_named named ctx.runId now
    have walked := driveToExportFlushed_eq (held_of_valid freshValid) ctx.runId hash outputLocation now
    rw [unproven.here] at walked
    have done : Flushed hash (flushOpen fresh.record hash outputLocation now) :=
      ⟨rfl, rfl, rfl, by simp [flushOpen, attempts]⟩
    have doneValid := (flushOpen_held freshValid.identity hash outputLocation now).valid
      (by simp [flushOpen])
    refine ⟨_, doneValid, done, ?_, ?_⟩
    · intro old present
      rw [unseen] at present
      cases present
    · simp only [unseen, created, Option.map_some, walked]
      exact checkpointAndCommit_flushed _ _ ⟨_⟩ doneValid done
  · -- the flushed record is committed as it is
    have recordValid := valid _ _ found
    have walked := driveToExportFlushed_eq (held_of_valid recordValid) ctx.runId hash outputLocation now
    rw [flushed.here] at walked
    refine ⟨record, recordValid, flushed, ?_, ?_⟩
    · intro old present
      rw [found] at present
      rw [Option.some.inj present]
      exact Int64.le_refl _
    · simp only [found, walked]
      rw [checkpointAndCommit_flushed _ _ ⟨record⟩ recordValid flushed]
      simp only [withRecord, commitSaves, insert_erase_self]

/-- The record of a page is missing or that of a failed append that can be counted on. -/
def Retryable (session : CommitSession) (key : String) : Prop :=
  session.records[key]? = none ∨
    ∃ record, session.records[key]? = some record ∧ Unproven record ∧ record.attempts + 1 ≠ 0

theorem commitItem_commits (crates : ExportCrates) (session : CommitSession) {ctx : ResumeContext}
    (context : session.ctx = some ctx)
    (valid : AllValid session.records) (named : Named crates page)
    (slot : Retryable session (crates.urls.canonicalKey page.url)) {now : Int64}
    (onTime : ∀ old, session.records[crates.urls.canonicalKey page.url]? = some old →
      old.updatedAt ≤ now) (outputLocation runId : String) :
    Commits session (crates.urls.canonicalKey page.url) hash
      (session.commitItem crates.urls page.url hash outputLocation runId now) := by
  -- from either record the chain ends in `PROCESSED` with attempts to count on
  obtain ⟨processed, driven, identity, attempts⟩ : ∃ processed,
      session.processedForCommit page.url (crates.urls.canonicalKey page.url) runId now =
        some processed ∧ isMeaninglessIdentity processed.record.url = false ∧
          processed.record.attempts + 1 ≠ 0 := by
    unfold processedForCommit
    obtain unseen | ⟨record, found, unproven, attempts⟩ := slot
    · obtain ⟨fresh, created, freshValid, -, attempts, -⟩ := freshDiscovered_of_named named runId now
      rw [unseen]
      refine ⟨_, by rw [Option.filter_none]; simp only [created]; rfl, freshValid.identity, ?_⟩
      show fresh.record.attempts + 1 ≠ 0
      simp [attempts]
    · have open_ : record.status.isTerminal = false := by rw [unproven.here]; rfl
      rw [found]
      refine ⟨⟨{ record with status := .processed }⟩, ?_, (valid _ _ found).identity, attempts⟩
      simp [Option.filter, open_, driveToProcessed_open open_]
  unfold commitItem
  simp only [driven]
  generalize made : (processed.modify fun payload =>
    { payload with
      runId
      contentHash := some hash
      outputLocation := some outputLocation
      attempts := payload.attempts + 1
      lastError := none
      updatedAt := now }).exportFlushed = exported
  have flushed : Flushed hash exported.record := by
    rw [← made]
    exact ⟨rfl, rfl, rfl, attempts⟩
  have exportedValid : exported.record.Valid := by
    rw [← made]
    exact exportFlushed_valid _ identity rfl rfl
  refine ⟨exported.record, exportedValid, flushed, ?_, ?_⟩
  · rw [← made]
    exact onTime
  · rw [checkpointAndCommit_flushed _ _ exported exportedValid flushed]
    simp [withRecord, commitSaves, insert_erase_self, context]

/-- The operation records a failure that proves nothing. -/
def Fails (session : CommitSession) (key : String) (now : Int64)
    (outcome : CommitSession × List Save) : Prop :=
  ∃ record, record.Valid ∧ Unproven record ∧ record.updatedAt = now ∧
    outcome = (withRecord session key record, [⟨session.records.insert key record, none⟩])

theorem failItem_fails (crates : ExportCrates) (session : CommitSession) {ctx : ResumeContext}
    (context : session.ctx = some ctx)
    (valid : AllValid session.records) (named : Named crates page)
    (slot : Retryable session (crates.urls.canonicalKey page.url)) (errorClass : ErrorClass)
    (message : String) (now : Int64) :
    Fails session (crates.urls.canonicalKey page.url) now
      (session.failItem crates.urls page.url errorClass message now) := by
  -- the record there is, or a fresh one
  obtain ⟨entry, found, entryValid, unproven⟩ : ∃ entry,
      session.entryOrDiscovered page.url (crates.urls.canonicalKey page.url) ctx.runId now =
        some entry ∧ entry.Valid ∧ Unproven entry := by
    unfold entryOrDiscovered
    obtain unseen | ⟨record, found, unproven, -⟩ := slot
    · obtain ⟨fresh, created, freshValid, unproven, -⟩ := freshDiscovered_of_named named ctx.runId now
      exact ⟨fresh.record, by simp [unseen, created], freshValid, unproven⟩
    · exact ⟨record, by simp [found], valid _ _ found, unproven⟩
  have failed : Unproven (failedRecord entry errorClass message now) :=
    ⟨unproven.here, unproven.unhashed⟩
  refine ⟨failedRecord entry errorClass message now, ?_, failed, rfl, ?_⟩
  · exact .of_nonterminal entryValid.identity (by rw [failed.here]; rfl)
  · simp only [failItem, context, found, withRecord, failedRecord]

end Webfang.Export
