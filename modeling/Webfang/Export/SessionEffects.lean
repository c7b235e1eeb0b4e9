import Webfang.Export.SessionValidity

/-!
# What the session operations do to the records

Each operation rewrites the record of one key and leaves every other record, the context,
the index and the claims alone. The commit paths end in `settle`: the flushed record
advances to `COMMITTED`, or stays `EXPORTED` when the transition refuses it.
-/
namespace Webfang.Export

open Library Domain CommitSession

variable {crates : UrlCrates}

def settle (flushed : RawRecord) : RawRecord := (tryCommitExported flushed).getD flushed

/-- The operation moved the records only. -/
structure SameRun (before after : CommitSession) : Prop where
  ctx : after.ctx = before.ctx
  hashIndex : after.hashIndex = before.hashIndex
  driven : after.driven = before.driven

theorem SameRun.refl (session : CommitSession) : SameRun session session := ⟨rfl, rfl, rfl⟩

theorem SameRun.trans {a b c : CommitSession} (first : SameRun a b) (second : SameRun b c) :
    SameRun a c :=
  ⟨second.ctx.trans first.ctx, second.hashIndex.trans first.hashIndex,
    second.driven.trans first.driven⟩

theorem getElem?_swapToCommitted {records : DomainRecords} {key : String} {flushed : RawRecord}
    (held : records[key]? = some flushed) (k : String) :
    (swapToCommitted records key).1[k]? = if key = k then some (settle flushed) else records[k]? := by
  unfold swapToCommitted
  rw [held, Option.bind_some]
  cases accepted : tryCommitExported flushed with
  | none =>
    by_cases here : key = k
    · simp [settle, accepted, ← here, held]
    · simp [here]
  | some committed => simp [settle, accepted, Std.ExtTreeMap.getElem?_insert]

theorem checkpointAndCommit_sameRun (session : CommitSession) (key : String)
    (exported : Stateful .exported) :
    SameRun session (session.checkpointAndCommit key exported).1 := by
  unfold checkpointAndCommit
  dsimp only
  split <;> exact ⟨rfl, rfl, rfl⟩

theorem getElem?_checkpointAndCommit (session : CommitSession) (key : String)
    (exported : Stateful .exported) (k : String) :
    (session.checkpointAndCommit key exported).1.records[k]? =
      if key = k then some (settle exported.record) else session.records[k]? := by
  have held : (session.records.insert key exported.record)[key]? = some exported.record := by simp
  have swapped := getElem?_swapToCommitted held k
  rw [Std.ExtTreeMap.getElem?_insert] at swapped
  have result : (session.checkpointAndCommit key exported).1.records =
      (swapToCommitted (session.records.insert key exported.record) key).1 := by
    unfold checkpointAndCommit
    dsimp only
    split
    next swapped => rw [swapped]
    next swapped => rw [swapped]
  rw [result, swapped]
  by_cases here : key = k <;> simp [here]

theorem saves_checkpointAndCommit (session : CommitSession) (key : String)
    {exported : Stateful .exported} {committed : RawRecord}
    (accepted : tryCommitExported exported.record = some committed) :
    session.checkpointAndCommit key exported =
      ({ session with records := (session.records.insert key exported.record).insert key committed },
        [⟨session.records.insert key exported.record, some .exported⟩,
          ⟨(session.records.insert key exported.record).insert key committed, some .committed⟩]) := by
  have swapped : swapToCommitted (session.records.insert key exported.record) key =
      ((session.records.insert key exported.record).insert key committed, true) := by
    simp [swapToCommitted, accepted]
  unfold checkpointAndCommit
  dsimp only
  rw [swapped]

/-! ### The flush-proof promotion -/

def exportedForPromotion (session : CommitSession) (url key runId outputLocation contentHash : String)
    (now : Int64) : Option (Stateful .exported) :=
  (session.entryOrDiscovered url key runId now).bind fun record =>
    driveToExportFlushed record runId contentHash outputLocation now

theorem promoteFromFlushProof_spec (crates : UrlCrates) (session : CommitSession) {ctx : ResumeContext}
    (context : session.ctx = some ctx) (url outputLocation contentHash : String) (now : Int64) :
    SameRun session (session.promoteFromFlushProof crates url outputLocation contentHash now).1 ∧
      ∀ k, (session.promoteFromFlushProof crates url outputLocation contentHash now).1.records[k]? =
        if crates.canonicalKey url = k then
          (exportedForPromotion session url (crates.canonicalKey url) ctx.runId outputLocation
            contentHash now).map fun exported => settle exported.record
        else session.records[k]? := by
  obtain ⟨_, records, hashIndex, driven, skipped⟩ := session
  cases context
  unfold promoteFromFlushProof exportedForPromotion entryOrDiscovered resolveFlushProofRecord
  dsimp only
  generalize crates.canonicalKey url = key
  cases found : records[key]? with
  | some record =>
    dsimp only [Option.bind_some]
    cases driveToExportFlushed record ctx.runId contentHash outputLocation now with
    | none =>
      refine ⟨⟨rfl, rfl, rfl⟩, fun k => ?_⟩
      by_cases here : key = k <;> simp [here, Std.ExtTreeMap.getElem?_erase]
    | some exported =>
      have erased : SameRun ⟨some ctx, records, hashIndex, driven, skipped⟩
          ⟨some ctx, records.erase key, hashIndex, driven, skipped⟩ := ⟨rfl, rfl, rfl⟩
      dsimp only
      refine ⟨erased.trans (checkpointAndCommit_sameRun _ key exported), fun k => ?_⟩
      rw [getElem?_checkpointAndCommit]
      by_cases here : key = k <;> simp [here, Std.ExtTreeMap.getElem?_erase]
  | none =>
    -- a refused record is not there before either
    have unchanged (k : String) : records[k]? = if key = k then none else records[k]? := by
      by_cases here : key = k
      · simp [here, ← found]
      · simp [here]
    cases freshDiscovered url key ctx.runId now with
    | none => exact ⟨⟨rfl, rfl, rfl⟩, unchanged⟩
    | some fresh =>
      dsimp only [Option.map_some, Option.bind_some]
      cases driveToExportFlushed fresh.record ctx.runId contentHash outputLocation now with
      | none => exact ⟨⟨rfl, rfl, rfl⟩, unchanged⟩
      | some exported =>
        refine ⟨checkpointAndCommit_sameRun _ key exported, fun k => ?_⟩
        dsimp only
        rw [getElem?_checkpointAndCommit]
        by_cases here : key = k <;> simp [here]

/-! ### The commit of a flushed item -/

/-- The flushed record of a commit. -/
def exportedForCommit (session : CommitSession) (url key contentHash outputLocation runId : String)
    (now : Int64) : Option (Stateful .exported) :=
  (session.processedForCommit url key runId now).map fun processed =>
    (processed.modify fun payload =>
      { payload with
        runId
        contentHash := some contentHash
        outputLocation := some outputLocation
        attempts := payload.attempts + 1
        lastError := none
        updatedAt := now }).exportFlushed

theorem commitItem_spec (crates : UrlCrates) (session : CommitSession)
    (url contentHash outputLocation runId : String) (now : Int64) :
    SameRun session (session.commitItem crates url contentHash outputLocation runId now).1 ∧
      ∀ k, (session.commitItem crates url contentHash outputLocation runId now).1.records[k]? =
        if crates.canonicalKey url = k then
          (exportedForCommit session url (crates.canonicalKey url) contentHash outputLocation runId
            now).map fun exported => settle exported.record
        else session.records[k]? := by
  unfold commitItem exportedForCommit
  dsimp only
  generalize crates.canonicalKey url = key
  cases session.processedForCommit url key runId now with
  | none =>
    refine ⟨⟨rfl, rfl, rfl⟩, fun k => ?_⟩
    by_cases here : key = k <;> simp [here, Std.ExtTreeMap.getElem?_erase]
  | some processed =>
    have erased : SameRun session { session with records := session.records.erase key } :=
      ⟨rfl, rfl, rfl⟩
    dsimp only [Option.map_some]
    refine ⟨erased.trans (checkpointAndCommit_sameRun _ key _), fun k => ?_⟩
    rw [getElem?_checkpointAndCommit]
    by_cases here : key = k <;> simp [here, Std.ExtTreeMap.getElem?_erase]

/-! ### The failure -/

def failedRecord (record : RawRecord) (errorClass : ErrorClass) (message : String) (now : Int64) :
    RawRecord :=
  { record with
    attempts := record.attempts + 1
    lastError := some ⟨errorClass, message⟩
    updatedAt := now }

theorem failItem_spec (crates : UrlCrates) (session : CommitSession) (url : String)
    (errorClass : ErrorClass) (message : String) (now : Int64) :
    SameRun session (session.failItem crates url errorClass message now).1 ∧
      ∀ k, (session.failItem crates url errorClass message now).1.records[k]? =
        match session.ctx with
        | none => session.records[k]?
        | some ctx =>
          if crates.canonicalKey url = k then
            (session.entryOrDiscovered url (crates.canonicalKey url) ctx.runId now).map fun record =>
              failedRecord record errorClass message now
          else session.records[k]? := by
  obtain ⟨ctx, records, hashIndex, driven, skipped⟩ := session
  unfold failItem entryOrDiscovered
  cases ctx with
  | none => exact ⟨SameRun.refl _, fun _ => rfl⟩
  | some ctx =>
    dsimp only
    generalize crates.canonicalKey url = key
    cases found : records[key]? with
    | some record =>
      refine ⟨⟨rfl, rfl, rfl⟩, fun k => ?_⟩
      by_cases here : key = k <;> simp [here, failedRecord, Std.ExtTreeMap.getElem?_insert]
    | none =>
      -- an unseen URL fails in a fresh record, and a blank one not at all
      cases freshDiscovered url key ctx.runId now with
      | none =>
        refine ⟨SameRun.refl _, fun k => ?_⟩
        by_cases here : key = k
        · subst here
          simp [found]
        · simp [here]
      | some fresh =>
        refine ⟨⟨rfl, rfl, rfl⟩, fun k => ?_⟩
        by_cases here : key = k <;> simp [here, failedRecord, Std.ExtTreeMap.getElem?_insert]

/-! ### What every held record keeps

`failItem` may break the table on a `COMMITTED` record, so within a run only a part of it
holds of every record. -/

structure Held (record : RawRecord) : Prop where
  identity : isMeaninglessIdentity record.url = false
  flushed : record.status.isTerminal = true → record.isMigratedV1 = false →
    record.outputLocation.isSome ∧ record.contentHash.isSome

def AllHeld (records : DomainRecords) : Prop :=
  ∀ (key : String) (record : RawRecord), records[key]? = some record → Held record

theorem held_of_valid {record : RawRecord} (valid : record.Valid) : Held record :=
  ⟨valid.identity, valid.flushed⟩

theorem Held.valid {record : RawRecord} (held : Held record)
    (uncommitted : record.status ≠ .committed) : record.Valid :=
  ⟨held.identity, held.flushed, fun here => absurd here uncommitted,
    fun here => absurd here uncommitted⟩

theorem freshDiscovered_eq (url canonicalUrl runId : String) (now : Int64) :
    freshDiscovered url canonicalUrl runId now =
      if Text.isBlank url || Text.isBlank canonicalUrl then none
      else some ⟨{
        url, canonicalUrl, runId, updatedAt := now
        contentHash := none
        attempts := 0
        status := .discovered
        lastError := none
        outputLocation := none }⟩ := by
  unfold freshDiscovered RawRecord.newDiscovered
  cases Text.isBlank url <;> cases Text.isBlank canonicalUrl <;> rfl

theorem tryCommitExported_eq {flushed : RawRecord} (held : Held flushed)
    (here : flushed.status = .exported) :
    tryCommitExported flushed =
      if flushed.lastError = none ∧ flushed.attempts ≠ 0 then
        some { flushed with status := .committed }
      else none := by
  have valid := held.valid (by simp [here])
  split
  next ready => exact tryCommitExported_of_valid valid here ready.1 ready.2
  next refused =>
    cases accepted : tryCommitExported flushed with
    | none => rfl
    | some committed =>
      obtain ⟨-, made, candidate⟩ := tryCommitExported_eq_some accepted
      rw [made] at candidate
      exact absurd ⟨candidate.clean rfl, candidate.driven rfl⟩ refused

theorem settle_eq {flushed : RawRecord} (held : Held flushed) (here : flushed.status = .exported) :
    settle flushed =
      if flushed.lastError = none ∧ flushed.attempts ≠ 0 then
        { flushed with status := .committed }
      else flushed := by
  rw [settle, tryCommitExported_eq held here]
  split <;> rfl

theorem settle_held {flushed : RawRecord} (held : Held flushed) (here : flushed.status = .exported) :
    Held (settle flushed) := by
  rw [settle_eq held here]
  split
  · exact ⟨held.identity, fun _ => held.flushed (by simp [here, PageStatus.isTerminal])⟩
  · exact held

theorem settle_contentHash (flushed : RawRecord) :
    (settle flushed).contentHash = flushed.contentHash := by
  unfold settle
  cases accepted : tryCommitExported flushed with
  | none => rfl
  | some committed =>
    rw [Option.getD_some, (tryCommitExported_eq_some accepted).2.1]

/-- A record that the commit point advanced passes the resume gate. -/
theorem settle_reconciles {flushed : RawRecord} (here : flushed.status = .exported)
    (advanced : (settle flushed).status = .committed) :
    (Stateful.reconcile .committed (settle flushed)).isOk = true := by
  have valid : (settle flushed).Valid := by
    unfold settle at advanced ⊢
    cases accepted : tryCommitExported flushed with
    | none =>
      rw [accepted, Option.getD_none, here] at advanced
      cases advanced
    | some committed => exact (tryCommitExported_eq_some accepted).2.2
  rw [valid.reconcile advanced]
  rfl

def flushOpen (record : RawRecord) (contentHash outputLocation : String) (now : Int64) :
    RawRecord :=
  { record with
    status := .exported
    attempts := record.attempts + 1
    lastError := none
    updatedAt := now
    contentHash := some contentHash
    outputLocation :=
      if record.outputLocation.isNone then some outputLocation else record.outputLocation }

theorem flushOpen_held {record : RawRecord} (identity : isMeaninglessIdentity record.url = false)
    (contentHash outputLocation : String) (now : Int64) :
    Held (flushOpen record contentHash outputLocation now) := by
  refine ⟨identity, fun _ _ => ⟨?_, rfl⟩⟩
  simp only [flushOpen]
  split
  · rfl
  next present => simpa [← Option.isSome_iff_ne_none] using present

theorem driveToExportFlushed_eq {record : RawRecord} (held : Held record)
    (runId contentHash outputLocation : String) (now : Int64) :
    driveToExportFlushed record runId contentHash outputLocation now =
      match record.status with
      | .exported => some ⟨record⟩
      | .committed =>
        (freshDiscovered record.url record.canonicalUrl runId now).map fun fresh =>
          ⟨flushOpen fresh.record contentHash outputLocation now⟩
      | _ => some ⟨flushOpen record contentHash outputLocation now⟩ := by
  unfold driveToExportFlushed
  cases here : record.status with
  | exported => simp [(held.valid (by simp [here])).reconcile here]
  | committed =>
    rw [if_neg (by simp), driveToProcessed_terminal (by simp [here, PageStatus.isTerminal])]
    cases freshDiscovered record.url record.canonicalUrl runId now with
    | none => rfl
    | some fresh => rfl
  | _ =>
    rw [if_neg (by simp), driveToProcessed_open (by simp [here, PageStatus.isTerminal])]
    rfl

theorem driveToExportFlushed_held {record : RawRecord} (held : Held record)
    {runId contentHash outputLocation : String} {now : Int64} {exported : Stateful .exported}
    (driven : driveToExportFlushed record runId contentHash outputLocation now = some exported) :
    Held exported.record ∧ exported.record.status = .exported := by
  rw [driveToExportFlushed_eq held] at driven
  split at driven
  next here =>
    cases driven
    exact ⟨held, here⟩
  next =>
    obtain ⟨fresh, created, rfl⟩ := Option.map_eq_some_iff.mp driven
    exact ⟨flushOpen_held (freshDiscovered_valid created).1.identity _ _ _, rfl⟩
  next =>
    cases driven
    exact ⟨flushOpen_held held.identity _ _ _, rfl⟩

theorem entryOrDiscovered_held (session : CommitSession) (held : AllHeld session.records)
    {url key runId : String} {now : Int64} {record : RawRecord}
    (entry : session.entryOrDiscovered url key runId now = some record) : Held record := by
  unfold entryOrDiscovered at entry
  split at entry
  next found =>
    cases entry
    exact held _ _ found
  next =>
    obtain ⟨fresh, created, rfl⟩ := Option.map_eq_some_iff.mp entry
    exact held_of_valid (freshDiscovered_valid created).1

theorem exportedForPromotion_held (session : CommitSession) (held : AllHeld session.records)
    {url key runId outputLocation contentHash : String} {now : Int64} {exported : Stateful .exported}
    (made : exportedForPromotion session url key runId outputLocation contentHash now = some exported) :
    Held exported.record ∧ exported.record.status = .exported := by
  obtain ⟨record, entry, driven⟩ := Option.bind_eq_some_iff.mp made
  exact driveToExportFlushed_held (entryOrDiscovered_held session held entry) driven

theorem exportedForCommit_spec {session : CommitSession} (held : AllHeld session.records)
    {url key contentHash outputLocation runId : String} {now : Int64} {exported : Stateful .exported}
    (made : exportedForCommit session url key contentHash outputLocation runId now = some exported) :
    Held exported.record ∧ exported.record.status = .exported ∧
      exported.record.contentHash = some contentHash := by
  obtain ⟨processed, driven, rfl⟩ := Option.map_eq_some_iff.mp made
  -- whichever record the chain starts from, its URL addresses a page
  have identity : isMeaninglessIdentity processed.record.url = false := by
    unfold processedForCommit at driven
    split at driven
    next record existing =>
      obtain ⟨found, -⟩ := Option.filter_eq_some_iff.mp existing
      exact driveToProcessed_identity (held _ _ found).identity driven
    next =>
      obtain ⟨s, created, rfl⟩ := Option.map_eq_some_iff.mp driven
      exact (freshDiscovered_valid created).1.identity
  exact ⟨⟨identity, fun _ _ => ⟨rfl, rfl⟩⟩, rfl, rfl⟩

theorem failedRecord_held {record : RawRecord} (held : Held record) (errorClass : ErrorClass)
    (message : String) (now : Int64) : Held (failedRecord record errorClass message now) :=
  ⟨held.identity, held.flushed⟩

/-- A rewrite of one slot keeps the property of all slots. -/
theorem AllHeld.slot {before after : DomainRecords} (held : AllHeld before) {key : String}
    {slot : Option RawRecord} (rewritten : ∀ k, after[k]? = if key = k then slot else before[k]?)
    (slotHeld : ∀ record, slot = some record → Held record) : AllHeld after := by
  intro k record found
  rw [rewritten k] at found
  split at found
  · exact slotHeld record found
  · exact held k record found

theorem promoteFromFlushProof_held (crates : UrlCrates) {session : CommitSession}
    (held : AllHeld session.records) {ctx : ResumeContext} (context : session.ctx = some ctx)
    (url outputLocation contentHash : String) (now : Int64) :
    AllHeld (session.promoteFromFlushProof crates url outputLocation contentHash now).1.records := by
  refine held.slot
    (promoteFromFlushProof_spec crates session context url outputLocation contentHash now).2 ?_
  intro record made
  obtain ⟨exported, promoted, rfl⟩ := Option.map_eq_some_iff.mp made
  obtain ⟨exportedHeld, here⟩ := exportedForPromotion_held session held promoted
  exact settle_held exportedHeld here

theorem commitItem_held {session : CommitSession} (held : AllHeld session.records)
    (url contentHash outputLocation runId : String) (now : Int64) :
    AllHeld (session.commitItem crates url contentHash outputLocation runId now).1.records := by
  refine held.slot (commitItem_spec crates session url contentHash outputLocation runId now).2 ?_
  intro record made
  obtain ⟨exported, flushed, rfl⟩ := Option.map_eq_some_iff.mp made
  obtain ⟨exportedHeld, here, -⟩ := exportedForCommit_spec held flushed
  exact settle_held exportedHeld here

theorem failItem_held {session : CommitSession} (held : AllHeld session.records)
    (url : String) (errorClass : ErrorClass) (message : String) (now : Int64) :
    AllHeld (session.failItem crates url errorClass message now).1.records := by
  have spec := (failItem_spec crates session url errorClass message now).2
  cases context : session.ctx with
  | none =>
    intro key record found
    rw [spec key, context] at found
    exact held key record found
  | some ctx =>
    rw [context] at spec
    refine held.slot spec ?_
    intro record made
    obtain ⟨entry, found, rfl⟩ := Option.map_eq_some_iff.mp made
    exact failedRecord_held (entryOrDiscovered_held session held found) _ _ _

end Webfang.Export
