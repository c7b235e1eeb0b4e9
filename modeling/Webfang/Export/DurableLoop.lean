import Webfang.Export.ResumeRuns

/-!
# The loop of a resumed call

What the items of a call keep: the output file lists each page at most once, and no record,
in the session or in the store, says more than the file. Without a failed append the loop
appends each of its pages that is missing and commits its record.
-/
namespace Webfang.Export

open Domain

variable {crates : ExportCrates} {campaign : Campaign}

/-! ### The invariant -/

/-- The output file lists each of the pages once. -/
structure Log (crates : ExportCrates) (campaign : Campaign) (outputs : Outputs)
    (appended : List ScrapedContent) : Prop where
  logs : Logs crates campaign.exporter outputs appended
  nodup : appended.Nodup
  known : ∀ page ∈ appended, page ∈ campaign.results
  /-- Only a page that is still missing can have left a torn line. -/
  torn : Torn campaign.exporter outputs → ∃ page ∈ campaign.results, page ∉ appended
  other : campaign.format = .vector → outputs.jsonl = none

/-- No record says more than the list of pages. -/
structure Ledger (crates : ExportCrates) (campaign : Campaign) (records : DomainRecords)
    (appended : List ScrapedContent) : Prop where
  valid : AllValid records
  slots : ∀ page ∈ campaign.results,
    SlotState (contentHash crates page) (page ∈ appended) records[pageKey crates page]?

/-- What holds between the calls. -/
structure Durable (crates : ExportCrates) (campaign : Campaign) (world : World)
    (appended : List ScrapedContent) : Prop where
  stored : ∃ records, Stores world.file records ∧ Ledger crates campaign records appended
  log : Log crates campaign world.outputs appended

/-- What holds between the items of a call. -/
structure Loop (crates : ExportCrates) (campaign : Campaign) (ctx : ResumeContext)
    (state : ExportState) (file : StateFile) (appended : List ScrapedContent) : Prop where
  same : SameFile campaign.exporter state.exporter
  fits : state.exporter.Fits state.outputs
  context : state.session.ctx = some ctx
  stored : Stores file state.session.records
  ledger : Ledger crates campaign state.session.records appended
  log : Log crates campaign state.outputs appended

theorem durable_start : Durable crates campaign World.start [] where
  stored := ⟨∅, .missing, AllValid.empty, fun page _ => by
    rw [Std.ExtTreeMap.getElem?_empty]
    exact .unseen⟩
  log :=
    { logs := logs_empty _
      nodup := .nil
      known := nofun
      torn := by
        intro torn
        unfold Torn at torn
        split at torn
        · exact absurd rfl torn
        · exact torn.elim
      other := fun _ => rfl }

variable {ctx : ResumeContext} {state : ExportState} {file : StateFile}
  {appended appended' : List ScrapedContent} {page other : ScrapedContent} {env : ItemEnv}
  {step : ItemStep} {history : List RawRecord}

theorem Loop.durable (loop : Loop crates campaign ctx state file appended) :
    Durable crates campaign ⟨state.outputs, file⟩ appended :=
  ⟨⟨_, loop.stored, loop.ledger⟩, loop.log⟩

theorem Loop.sessionReady (loop : Loop crates campaign ctx state file appended) :
    SessionReady crates state appended ctx :=
  ⟨loop.context, loop.ledger.valid, loop.same.logs.mp loop.log.logs, loop.fits⟩

theorem Campaign.exporter_vector (campaign : Campaign) (vector : campaign.format = .vector) :
    campaign.exporter = .vector := by
  rw [Campaign.exporter, vector]
  rfl

theorem Campaign.exporter_jsonl (campaign : Campaign) (format : campaign.format ≠ .auto)
    (jsonl : campaign.format ≠ .vector) : campaign.exporter = .jsonl .unopened := by
  unfold Campaign.exporter
  cases selected : campaign.format with
  | jsonl => rfl
  | vector => exact absurd selected jsonl
  | auto => exact absurd selected format

theorem Campaign.format_vector (campaign : Campaign) (vector : campaign.exporter = .vector) :
    campaign.format = .vector := by
  unfold Campaign.exporter at vector
  cases selected : campaign.format with
  | jsonl =>
    rw [selected] at vector
    cases vector
  | vector => rfl
  | auto =>
    rw [selected] at vector
    cases vector

theorem SameFile.vector_iff {a b : Exporter} (same : SameFile a b) : a = .vector ↔ b = .vector := by
  cases a <;> cases b <;> first | exact same.elim | simp

theorem Campaign.WellFormed.page_eq (wellFormed : campaign.WellFormed crates)
    (member : page ∈ campaign.results) (listed : other ∈ campaign.results)
    (same : pageKey crates page = pageKey crates other) : page = other :=
  List.inj_on_of_nodup_map wellFormed.keys member listed same

/-! ### One item -/

theorem ItemOutcome.getElem?_other
    (outcome : ItemOutcome crates state appended page step appended' history) {key : String}
    (apart : crates.urls.canonicalKey page.url ≠ key) :
    step.state.session.records[key]? = state.session.records[key]? := by
  rw [outcome.records, getElem?_afterSaves, if_neg apart]

theorem ItemOutcome.mono (outcome : ItemOutcome crates state appended page step appended' history)
    (listed : other ∈ appended) : other ∈ appended' := by
  obtain same | ⟨-, grown⟩ := outcome.files.grown
  · rw [same]
    exact listed
  · rw [grown]
    exact List.mem_append_left _ listed

theorem ItemOutcome.mem_other (outcome : ItemOutcome crates state appended page step appended' history)
    (apart : other ≠ page) : other ∈ appended' ↔ other ∈ appended := by
  obtain same | ⟨-, grown⟩ := outcome.files.grown
  · rw [same]
  · simp [grown, apart]

theorem ItemOutcome.log (outcome : ItemOutcome crates state appended page step appended' history)
    (loop : Loop crates campaign ctx state file appended) (member : page ∈ campaign.results) :
    Log crates campaign step.state.outputs appended' := by
  have same : SameFile campaign.exporter step.state.exporter := loop.same.trans outcome.files.same
  constructor
  case logs => exact same.logs.mpr outcome.files.logs
  case nodup =>
    obtain kept | ⟨missing, grown⟩ := outcome.files.grown
    · rw [kept]
      exact loop.log.nodup
    · rw [grown, ← List.concat_eq_append]
      exact loop.log.nodup.concat missing
  case known =>
    intro other listed
    by_cases here : other = page
    · rw [here]
      exact member
    · exact loop.log.known other ((outcome.mem_other here).mp listed)
  case torn =>
    intro torn
    -- a tail that was there before has its missing page, a new one is of this page
    obtain ⟨before, kept⟩ | missing := outcome.files.torn (same.torn.mp torn)
    · rw [kept]
      exact loop.log.torn (loop.same.torn.mpr before)
    · exact ⟨page, member, missing⟩
  case other =>
    intro vector
    have selected : state.exporter = .vector :=
      loop.same.vector_iff.mp (campaign.exporter_vector vector)
    rw [outcome.files.otherFile selected]
    exact loop.log.other vector

/-- The item keeps the ledger, and so does every prefix of what it saves. -/
theorem ItemOutcome.ledger (outcome : ItemOutcome crates state appended page step appended' history)
    (wellFormed : campaign.WellFormed crates)
    (ledger : Ledger crates campaign state.session.records appended)
    (member : page ∈ campaign.results) {saved : List RawRecord}
    (some_ : ∀ record ∈ saved, record ∈ history) :
    Ledger crates campaign
      (afterSaves state.session.records (crates.urls.canonicalKey page.url) saved) appended' := by
  constructor
  case valid =>
    exact afterSaves_valid ledger.valid _ fun record listed => outcome.valid record (some_ record listed)
  case slots =>
    intro other listed
    -- what was said before is still true, as the list only grows
    have before := (ledger.slots other listed).mono outcome.mono
    rw [getElem?_afterSaves]
    split
    next here =>
      obtain rfl : page = other := wellFormed.page_eq member listed here
      cases last : saved.getLast? with
      | none => exact before
      | some record => exact outcome.states record (some_ record (List.mem_of_getLast? last))
    next => exact before

theorem Ascends.take {slot : Option RawRecord} (ascends : Ascends slot history) (count : Nat) :
    Ascends slot (history.take count) where
  first old held record member := ascends.first old held record (List.mem_of_mem_take member)
  later := ascends.later.sublist (List.take_sublist _ _)

/-- The store after some of the saves. -/
theorem ItemOutcome.stores (outcome : ItemOutcome crates state appended page step appended' history)
    (valid : AllValid state.session.records) (stored : Stores file state.session.records)
    (store : RecordStore) {ios : Nat → Io} (succeed : ∀ n, (ios n).Succeeds) (cut : Nat) :
    Stores (persistAll store ios (step.saves.take cut) file)
      (afterSaves state.session.records (crates.urls.canonicalKey page.url) (history.take cut)) := by
  have saves : (step.saves.take cut).map Save.records = (history.take cut).map fun record =>
      state.session.records.insert (crates.urls.canonicalKey page.url) record := by
    rw [List.map_take, List.map_take, outcome.saves]
  have done := persistAll_history store succeed saves valid
    (fun record member => outcome.valid record (List.mem_of_mem_take member)) stored valid
    (fun _ _ => rfl) (outcome.ascends.take cut)
  split at done
  next nothing =>
    rw [nothing]
    exact done
  next => exact done

theorem ItemOutcome.durable (outcome : ItemOutcome crates state appended page step appended' history)
    (wellFormed : campaign.WellFormed crates) (loop : Loop crates campaign ctx state file appended)
    (member : page ∈ campaign.results) {ios : Nat → Io} (succeed : ∀ n, (ios n).Succeeds) (cut : Nat) :
    Durable crates campaign
      ⟨step.state.outputs, persistAll campaign.store ios (step.saves.take cut) file⟩ appended' where
  stored := ⟨_, outcome.stores loop.ledger.valid loop.stored campaign.store succeed cut,
    outcome.ledger wellFormed loop.ledger member fun _ listed => List.mem_of_mem_take listed⟩
  log := outcome.log loop member

theorem ItemOutcome.loop (outcome : ItemOutcome crates state appended page step appended' history)
    (wellFormed : campaign.WellFormed crates) (loop : Loop crates campaign ctx state file appended)
    (member : page ∈ campaign.results) {ios : Nat → Io} (succeed : ∀ n, (ios n).Succeeds) :
    Loop crates campaign ctx step.state (persistAll campaign.store ios step.saves file) appended' := by
  have sizes : step.saves.length = history.length := by
    simpa using congrArg List.length outcome.saves
  have stored := outcome.stores loop.ledger.valid loop.stored campaign.store succeed history.length
  rw [List.take_length, ← sizes, List.take_length, ← outcome.records] at stored
  have ledger : Ledger crates campaign
      (afterSaves state.session.records (crates.urls.canonicalKey page.url) history) appended' :=
    outcome.ledger wellFormed loop.ledger member fun _ listed => listed
  rw [← outcome.records] at ledger
  exact ⟨loop.same.trans outcome.files.same, outcome.files.fits,
    outcome.context.trans loop.context, stored, ledger, outcome.log loop member⟩

/-! ### The pages that wait -/

/-- Nothing that decides on the page has changed. -/
structure Untouched (crates : ExportCrates) (before after : ExportState)
    (appended appended' : List ScrapedContent) (page : ScrapedContent) : Prop where
  slot : after.session.records[pageKey crates page]? = before.session.records[pageKey crates page]?
  context : after.session.ctx = before.session.ctx
  hashIndex : after.session.hashIndex = before.session.hashIndex
  claims : (page.url, contentHash crates page) ∈ after.session.driven →
    (page.url, contentHash crates page) ∈ before.session.driven
  listed : page ∈ appended' ↔ page ∈ appended

variable {after last : ExportState} {appended'' : List ScrapedContent}

theorem Untouched.refl (state : ExportState) (appended : List ScrapedContent) (page : ScrapedContent) :
    Untouched crates state state appended appended page :=
  ⟨rfl, rfl, rfl, id, Iff.rfl⟩

theorem Untouched.trans (first : Untouched crates state after appended appended' page)
    (second : Untouched crates after last appended' appended'' page) :
    Untouched crates state last appended appended'' page where
  slot := second.slot.trans first.slot
  context := second.context.trans first.context
  hashIndex := second.hashIndex.trans first.hashIndex
  claims claimed := first.claims (second.claims claimed)
  listed := second.listed.trans first.listed

theorem Untouched.decide (untouched : Untouched crates state after appended appended' page)
    (freshHash : Option String) :
    after.session.decide crates.urls page.url freshHash =
      state.session.decide crates.urls page.url freshHash := by
  have slot : after.session.records[crates.urls.canonicalKey page.url]? =
      state.session.records[crates.urls.canonicalKey page.url]? := untouched.slot
  unfold CommitSession.decide
  rw [slot, untouched.context, untouched.hashIndex]

theorem Phase.untouched (phase : Phase crates state.session appended page)
    (untouched : Untouched crates state after appended appended' page) :
    Phase crates after.session appended' page := by
  have slot : after.session.records[crates.urls.canonicalKey page.url]? =
      state.session.records[crates.urls.canonicalKey page.url]? := untouched.slot
  cases phase with
  | committed found here listed decided =>
    exact .committed (slot.trans found) here (untouched.listed.mpr listed)
      ((untouched.decide _).trans decided)
  | flushed held listed decided =>
    exact .flushed (by rw [slot]; exact held) (untouched.listed.mpr listed)
      ((untouched.decide _).trans decided)
  | pending held missing decided =>
    exact .pending (by unfold Retryable; rw [slot]; exact held)
      (fun listed => missing (untouched.listed.mp listed)) ((untouched.decide _).trans decided)

theorem PageReady.untouched (ready : PageReady crates state appended page env)
    (untouched : Untouched crates state after appended appended' page) :
    PageReady crates after appended' page env where
  unclaimed claimed := ready.unclaimed (untouched.claims claimed)
  phase := ready.phase.untouched untouched
  named := ready.named
  exportable := ready.exportable
  written := ready.written
  onTime old found := ready.onTime old (untouched.slot.symm.trans found)
  uncancelled := ready.uncancelled

theorem ItemOutcome.untouched (outcome : ItemOutcome crates state appended page step appended' history)
    (apart : pageKey crates page ≠ pageKey crates other) :
    Untouched crates state step.state appended appended' other where
  slot := outcome.getElem?_other apart
  context := outcome.context
  hashIndex := outcome.hashIndex
  claims claimed := by
    rw [outcome.driven] at claimed
    obtain same | before := List.mem_cons.mp claimed
    · exact absurd (congrArg crates.urls.canonicalKey (Prod.mk.inj same).1.symm) apart
    · exact before
  listed := outcome.mem_other fun same => apart (congrArg (pageKey crates) same.symm)

/-! ### The loop -/

/-- The page is in the file and its record is `COMMITTED`. -/
def Settled (crates : ExportCrates) (state : ExportState) (appended : List ScrapedContent)
    (page : ScrapedContent) : Prop :=
  page ∈ appended ∧ ∃ record, state.session.records[pageKey crates page]? = some record ∧
    record.status = .committed

theorem Settled.untouched (settled : Settled crates state appended page)
    (untouched : Untouched crates state after appended appended' page) :
    Settled crates after appended' page := by
  obtain ⟨listed, record, found, here⟩ := settled
  exact ⟨untouched.listed.mpr listed, record, untouched.slot.trans found, here⟩

/-- Appending the page once more keeps the count of documents within its field. -/
theorem Log.room (log : Log crates campaign state.outputs appended) (member : page ∈ campaign.results)
    (missing : page ∉ appended) : appended.length + 1 ≤ campaign.results.length := by
  -- the page and the list together are distinct results
  have distinct : (page :: appended).Nodup := List.nodup_cons.mpr ⟨missing, log.nodup⟩
  have within : page :: appended ⊆ campaign.results := by
    intro other listed
    obtain rfl | before := List.mem_cons.mp listed
    · exact member
    · exact log.known other before
  simpa using (List.subperm_of_subset distinct within).length_le

/-- An item that the loop may take. -/
structure ItemReady (crates : ExportCrates) (campaign : Campaign) (state : ExportState)
    (appended : List ScrapedContent) (item : ScrapedContent × ItemEnv) : Prop where
  member : item.1 ∈ campaign.results
  ready : PageReady crates state appended item.1 item.2
  succeed : ∀ n, (item.2.ios n).Succeeds

theorem processSingleItem_loop (runId : String) (loop : Loop crates campaign ctx state file appended)
    (ready : ItemReady crates campaign state appended (page, env))
    (whole : AppendsWhole crates state page env)
    (counted : campaign.format = .vector → campaign.results.length < 10 ^ countFieldWidth) :
    ∃ appended' history, ItemOutcome crates state appended page
      (processSingleItem crates campaign.outputPath runId state page env) appended' history := by
  apply processSingleItem_outcome campaign.outputPath runId loop.sessionReady ready.ready
  intro vector decided missing
  obtain ⟨early, decodes⟩ := whole vector decided
  have selected : campaign.format = .vector :=
    campaign.format_vector (loop.same.vector_iff.mpr vector)
  have room := loop.log.room ready.member missing
  exact ⟨early, decodes, Nat.lt_of_le_of_lt room (counted selected)⟩

/-- The loop over some of the items: it leaves every other page alone, and without a failed
append it settles each page it was given. -/
theorem runItems_loop {runId : String} (wellFormed : campaign.WellFormed crates)
    (counted : campaign.format = .vector → campaign.results.length < 10 ^ countFieldWidth)
    {items : List (ScrapedContent × ItemEnv)}
    (distinct : (items.map fun item => pageKey crates item.1).Nodup)
    (loop : Loop crates campaign ctx state file appended)
    (ready : ∀ item ∈ items, ItemReady crates campaign state appended item)
    (whole : EachItem crates campaign.outputPath runId (AppendsWhole crates) state items) :
    ∃ appended', Loop crates campaign ctx
        (runItems crates campaign.outputPath runId state items).1
        (persistTraces campaign.store (runItems crates campaign.outputPath runId state items).2 items
          file) appended' ∧
      (∀ other, pageKey crates other ∉ items.map (fun item => pageKey crates item.1) →
        Untouched crates state (runItems crates campaign.outputPath runId state items).1 appended
          appended' other) ∧
      ((∀ trace ∈ (runItems crates campaign.outputPath runId state items).2,
          trace.route ≠ .exportFailed) →
        ∀ item ∈ items, Settled crates
          (runItems crates campaign.outputPath runId state items).1 appended' item.1) := by
  induction items generalizing state file appended with
  | nil =>
    refine ⟨appended, loop, fun other _ => .refl _ _ _, ?_⟩
    intro _ item member
    cases member
  | cons item rest ih =>
    obtain ⟨page, env⟩ := item
    obtain ⟨here, later⟩ := whole
    rw [List.map_cons, List.nodup_cons] at distinct
    obtain ⟨first, others⟩ := distinct
    have itemReady := ready (page, env) List.mem_cons_self
    obtain ⟨middle, history, outcome⟩ := processSingleItem_loop runId loop itemReady here counted
    -- the step keeps the invariant, and the loop goes on from its state
    have stepped := outcome.loop wellFormed loop itemReady.member itemReady.succeed
    simp only [runItems]
    generalize processSingleItem crates campaign.outputPath runId state page env = step at *
    rw [if_neg outcome.goesOn]
    -- the rest of the items are pages with other keys
    have waiting : ∀ item ∈ rest, ItemReady crates campaign step.state middle item := by
      intro item member
      have before := ready item (List.mem_cons_of_mem _ member)
      have apart : pageKey crates page ≠ pageKey crates item.1 := by
        intro same
        exact first (same ▸ List.mem_map_of_mem member)
      exact ⟨before.member, before.ready.untouched (outcome.untouched apart), before.succeed⟩
    obtain ⟨final, ended, untouched, settled⟩ := ih others stepped waiting (later outcome.goesOn)
    refine ⟨final, ended, ?_, ?_⟩
    · intro other absent
      rw [List.map_cons, List.mem_cons, not_or] at absent
      exact (outcome.untouched (Ne.symm absent.1)).trans (untouched other absent.2)
    · intro clean item member
      obtain rfl | member := List.mem_cons.mp member
      -- nothing behind it touches the page again
      · have done : Settled crates step.state middle page :=
          outcome.settled (clean _ List.mem_cons_self)
        exact done.untouched (untouched page first)
      · exact settled (fun trace traced => clean trace (List.mem_cons_of_mem _ traced)) item member

end Webfang.Export
