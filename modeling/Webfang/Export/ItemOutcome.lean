import Webfang.Export.PageOutcome

/-!
# One item of a resumed run

What an item does to the output file, to the record of its page and, save by save, to the
store, in each phase its page can be in when its turn comes.
-/
namespace Webfang.Export

open Library Domain CommitSession

/-! ### The saves of one page -/

def afterSaves (records : DomainRecords) (key : String) (history : List RawRecord) : DomainRecords :=
  match history.getLast? with
  | none => records
  | some record => records.insert key record

structure Ascends (slot : Option RawRecord) (history : List RawRecord) : Prop where
  first : ∀ old, slot = some old → ∀ record ∈ history, old.updatedAt ≤ record.updatedAt
  later : history.Pairwise fun a b => a.updatedAt ≤ b.updatedAt

theorem getElem?_afterSaves (records : DomainRecords) (key k : String) (history : List RawRecord) :
    (afterSaves records key history)[k]? =
      if key = k then history.getLast?.or records[k]? else records[k]? := by
  unfold afterSaves
  cases history.getLast? with
  | none => simp
  | some record => by_cases here : key = k <;> simp [here, Std.ExtTreeMap.getElem?_insert]

theorem afterSaves_valid {records : DomainRecords} (valid : AllValid records) (key : String)
    {history : List RawRecord} (saved : ∀ record ∈ history, record.Valid) :
    AllValid (afterSaves records key history) := by
  unfold afterSaves
  cases last : history.getLast? with
  | none => exact valid
  | some record => exact valid.insert key (saved record (List.mem_of_getLast? last))

/-- A save of one key over a store that differs in that key only replaces the record. -/
theorem mergeRecords_insert {base current : DomainRecords} {key : String} {record : RawRecord}
    (frame : ∀ k, key ≠ k → current[k]? = base[k]?)
    (newer : ∀ old, current[key]? = some old → old.updatedAt ≤ record.updatedAt) :
    mergeRecords (base.insert key record) current = base.insert key record := by
  apply Std.ExtTreeMap.ext_getElem?
  intro k
  rw [getElem?_mergeRecords]
  by_cases here : key = k
  · subst here
    rw [Std.ExtTreeMap.getElem?_insert_self]
    cases held : current[key]? with
    | none => rfl
    | some old =>
      have order : stamp old ≤ stamp record := Int64.le_iff_toInt_le.mp (newer old held)
      simp [LastWriter.resolve, Int.not_lt.mpr order]
  · have kept : (base.insert key record)[k]? = base[k]? := by
      simp [Std.ExtTreeMap.getElem?_insert, here]
    rw [kept, frame k here]
    cases base[k]? with
    | none => rfl
    | some other => simp [LastWriter.resolve]

theorem mergePersist_stores (store : RecordStore) {io : Io} (succeeds : io.Succeeds)
    {file : StateFile} {records : DomainRecords} (stores : Stores file records)
    (valid : AllValid records) (mine : DomainRecords) :
    Stores (mergePersist mine store io file).2 (mergeRecords mine records) := by
  have updated : ∃ saved, store.update io file (fun current => .ok (mergeRecords mine current)) =
      (.ok (), saved) ∧ Stores saved (mergeRecords mine records) :=
    stores.update_of_succeeds valid succeeds rfl
  obtain ⟨saved, done, held⟩ := updated
  rw [mergePersist, done]
  exact held

theorem persistAll_history (store : RecordStore) {ios : Nat → Io} (succeed : ∀ n, (ios n).Succeeds)
    {base current : DomainRecords} {key : String} {history : List RawRecord} {saves : List Save}
    (same : saves.map Save.records = history.map fun record => base.insert key record)
    (baseValid : AllValid base) (saved : ∀ record ∈ history, record.Valid)
    {file : StateFile} (stores : Stores file current) (valid : AllValid current)
    (frame : ∀ k, key ≠ k → current[k]? = base[k]?) (ascends : Ascends current[key]? history) :
    Stores (persistAll store ios saves file) (if history = [] then current else
      afterSaves base key history) := by
  induction history generalizing saves ios file current with
  | nil =>
    rw [List.map_nil, List.map_eq_nil_iff] at same
    subst same
    exact stores
  | cons record rest ih =>
    obtain ⟨save, later, rfl, first, same⟩ := List.map_eq_cons_iff.mp same
    -- the store differs in this key only, and the save is not older
    have merged : mergeRecords save.records current = base.insert key record := by
      rw [first]
      exact mergeRecords_insert frame fun old held => ascends.first old held record List.mem_cons_self
    have stored := mergePersist_stores store (succeed 0) stores valid save.records
    rw [merged] at stored
    obtain ⟨before, ordered⟩ := List.pairwise_cons.mp ascends.later
    have recordValid := saved record List.mem_cons_self
    have next := ih (fun n => succeed (n + 1)) same
      (fun other member => saved other (List.mem_cons_of_mem _ member)) stored
      (baseValid.insert key recordValid)
      (fun k other => by simp [Std.ExtTreeMap.getElem?_insert, other])
      ⟨by
        intro old held other member
        rw [Std.ExtTreeMap.getElem?_insert_self] at held
        rw [← Option.some.inj held]
        exact before other member, ordered⟩
    -- of several saves of one key the last one counts
    have last : afterSaves base key (record :: rest) =
        if rest = [] then base.insert key record else afterSaves base key rest := by
      cases rest with
      | nil => rfl
      | cons other rest => simp [afterSaves, List.getLast?_cons_cons]
    rw [if_neg (List.cons_ne_nil _ _), last]
    exact next

/-! ### The item -/

variable {crates : ExportCrates}

/-- Where a page stands when its turn comes, and what the gate makes of it. -/
inductive Phase (crates : ExportCrates) (session : CommitSession)
    (appended : List ScrapedContent) (page : ScrapedContent) : Prop
  | committed {record : RawRecord}
      (found : session.records[crates.urls.canonicalKey page.url]? = some record)
      (here : record.status = .committed) (listed : page ∈ appended)
      (decided : session.decide crates.urls page.url (some (contentHash crates page)) =
        .alreadyCommitted)
  | flushed
      (slot : session.records[crates.urls.canonicalKey page.url]? = none ∨
        ∃ record, session.records[crates.urls.canonicalKey page.url]? = some record ∧
          Flushed (contentHash crates page) record)
      (listed : page ∈ appended)
      (decided : session.decide crates.urls page.url (some (contentHash crates page)) =
        .promoteFromFlushProof)
  | pending (slot : Retryable session (crates.urls.canonicalKey page.url)) (missing : page ∉ appended)
      (decided : session.decide crates.urls page.url (some (contentHash crates page)) =
        .driveAndCommit)

/-- What an item did to the output file. -/
structure FilesOutcome (crates : ExportCrates) (state : ExportState) (appended : List ScrapedContent)
    (page : ScrapedContent) (exporter : Exporter) (outputs : Outputs)
    (appended' : List ScrapedContent) : Prop where
  grown : appended' = appended ∨ (page ∉ appended ∧ appended' = appended ++ [page])
  logs : Logs crates exporter outputs appended'
  fits : exporter.Fits outputs
  same : SameFile state.exporter exporter
  torn : Torn exporter outputs →
    (Torn state.exporter state.outputs ∧ appended' = appended) ∨ page ∉ appended'
  otherFile : state.exporter = .vector → outputs.jsonl = state.outputs.jsonl

/-- What an item did: `history` are the records it saved for its page. -/
structure ItemOutcome (crates : ExportCrates) (state : ExportState) (appended : List ScrapedContent)
    (page : ScrapedContent) (step : ItemStep) (appended' : List ScrapedContent)
    (history : List RawRecord) : Prop where
  saves : step.saves.map Save.records =
    history.map fun record => state.session.records.insert (crates.urls.canonicalKey page.url) record
  records : step.state.session.records =
    afterSaves state.session.records (crates.urls.canonicalKey page.url) history
  valid : ∀ record ∈ history, record.Valid
  ascends : Ascends state.session.records[crates.urls.canonicalKey page.url]? history
  states : ∀ record ∈ history,
    SlotState (contentHash crates page) (page ∈ appended') (some record)
  files : FilesOutcome crates state appended page step.state.exporter step.state.outputs appended'
  context : step.state.session.ctx = state.session.ctx
  hashIndex : step.state.session.hashIndex = state.session.hashIndex
  driven : step.state.session.driven = (page.url, contentHash crates page) :: state.session.driven
  settled : step.route ≠ .exportFailed → page ∈ appended' ∧
    ∃ record, step.state.session.records[crates.urls.canonicalKey page.url]? = some record ∧
      record.status = .committed
  goesOn : step.outcome ≠ .cancelled

/-- A commit saves the flushed record and then the committed one. -/
theorem commits_history {session : CommitSession} {key hash : String}
    {outcome : CommitSession × List Save} (commits : Commits session key hash outcome) :
    ∃ record, record.Valid ∧ Flushed hash record ∧
      outcome.1 = withRecord session key (asCommitted record) ∧
      outcome.2.map Save.records = [record, asCommitted record].map
        (fun record => session.records.insert key record) ∧
      (asCommitted record).Valid ∧ Ascends session.records[key]? [record, asCommitted record] := by
  obtain ⟨record, valid, flushed, onTime, rfl⟩ := commits
  have accepted := tryCommitExported_of_valid valid flushed.here flushed.clean flushed.driven
  refine ⟨record, valid, flushed, rfl, rfl, (tryCommitExported_eq_some accepted).2.2, ?_, ?_⟩
  · intro old held other member
    obtain rfl | rfl := List.mem_pair.mp member
    · exact onTime old held
    · exact onTime old held
  · rw [List.pairwise_pair]
    exact Int64.le_refl _

theorem fails_history {session : CommitSession} {key : String} {now : Int64}
    {outcome : CommitSession × List Save} (fails : Fails session key now outcome)
    (onTime : ∀ old, session.records[key]? = some old → old.updatedAt ≤ now) :
    ∃ record, record.Valid ∧ Unproven record ∧ outcome.1 = withRecord session key record ∧
      outcome.2.map Save.records = [record].map (fun record => session.records.insert key record) ∧
      Ascends session.records[key]? [record] := by
  obtain ⟨record, valid, unproven, rfl, rfl⟩ := fails
  refine ⟨record, valid, unproven, rfl, rfl, ?_, List.pairwise_singleton _ _⟩
  intro old held other member
  rw [List.mem_singleton.mp member]
  exact onTime old held

/-- What the loop knows of a page before its turn. -/
structure PageReady (crates : ExportCrates) (state : ExportState) (appended : List ScrapedContent)
    (page : ScrapedContent) (env : ItemEnv) : Prop where
  unclaimed : (page.url, contentHash crates page) ∉ state.session.driven
  phase : Phase crates state.session appended page
  named : Named crates page
  exportable : DocumentChunk.Exportable crates page
  written : Written crates page (chunkOf crates page env)
  onTime : ∀ old, state.session.records[crates.urls.canonicalKey page.url]? = some old →
    old.contentHash = none → old.updatedAt ≤ env.now
  uncancelled : env.cancelled = false

/-- What the loop knows of the files and the session. -/
structure SessionReady (crates : ExportCrates) (state : ExportState)
    (appended : List ScrapedContent) (ctx : ResumeContext) : Prop where
  context : state.session.ctx = some ctx
  valid : AllValid state.session.records
  logs : Logs crates state.exporter state.outputs appended
  fits : state.exporter.Fits state.outputs

variable {state : ExportState} {appended : List ScrapedContent} {page : ScrapedContent}
  {env : ItemEnv} {ctx : ResumeContext}

theorem cancelledIn_false (session : CommitSession) (uncancelled : env.cancelled = false) :
    cancelledIn session env = false := by
  simp [cancelledIn, uncancelled]

theorem SessionReady.filesOutcome (ready : SessionReady crates state appended ctx)
    (page : ScrapedContent) :
    FilesOutcome crates state appended page state.exporter state.outputs appended where
  grown := .inl rfl
  logs := ready.logs
  fits := ready.fits
  same := .refl _
  torn torn := .inl ⟨torn, rfl⟩
  otherFile _ := rfl

variable {exporter : Exporter} {outputs : Outputs} {appended' : List ScrapedContent}
  {outcome : CommitSession × List Save} {result : SingleItemOutcome} {route : Route}

theorem Commits.itemOutcome
    (commits : Commits (claimed state.session page.url (contentHash crates page))
      (crates.urls.canonicalKey page.url) (contentHash crates page) outcome)
    (files : FilesOutcome crates state appended page exporter outputs appended')
    (listed : page ∈ appended') (goesOn : result ≠ .cancelled) :
    ∃ history, ItemOutcome crates state appended page
      ⟨⟨outcome.1, exporter, outputs⟩, result, route, outcome.2⟩ appended' history := by
  obtain ⟨record, valid, flushed, moved, saves, committedValid, ascends⟩ := commits_history commits
  refine ⟨[record, asCommitted record], ?_⟩
  constructor
  case saves => exact saves
  case records => simp only [moved]; rfl
  case valid =>
    intro other member
    obtain rfl | rfl := List.mem_pair.mp member
    · exact valid
    · exact committedValid
  case ascends => exact ascends
  case states =>
    intro other member
    obtain rfl | rfl := List.mem_pair.mp member
    · exact .flushed flushed listed
    · exact .committed rfl listed
  case files => exact files
  case context => simp only [moved]; rfl
  case hashIndex => simp only [moved]; rfl
  case driven => simp only [moved]; rfl
  case settled =>
    refine fun _ => ⟨listed, asCommitted record, ?_, rfl⟩
    simp [moved, withRecord]
  case goesOn => exact goesOn

theorem Fails.itemOutcome (fails : Fails (claimed state.session page.url (contentHash crates page))
      (crates.urls.canonicalKey page.url) env.now outcome)
    (onTime : ∀ old, state.session.records[crates.urls.canonicalKey page.url]? = some old →
      old.updatedAt ≤ env.now)
    (files : FilesOutcome crates state appended page exporter outputs appended')
    (goesOn : result ≠ .cancelled) :
    ∃ history, ItemOutcome crates state appended page
      ⟨⟨outcome.1, exporter, outputs⟩, result, .exportFailed, outcome.2⟩ appended' history := by
  obtain ⟨record, valid, unproven, moved, saves, ascends⟩ := fails_history fails onTime
  refine ⟨[record], ?_⟩
  constructor
  case saves => exact saves
  case records => simp only [moved]; rfl
  case valid =>
    intro other member
    rw [List.mem_singleton.mp member]
    exact valid
  case ascends => exact ascends
  case states =>
    intro other member
    rw [List.mem_singleton.mp member]
    exact .failing unproven
  case files => exact files
  case context => simp only [moved]; rfl
  case hashIndex => simp only [moved]; rfl
  case driven => simp only [moved]; rfl
  case settled => exact fun fine => absurd rfl fine
  case goesOn => exact goesOn

theorem driveItem_outcome (outputPath runId : String) (ready : SessionReady crates state appended ctx)
    (pageReady : PageReady crates state appended page env)
    (safe : state.exporter = .vector → AppendGuard state.outputs appended.length env.append)
    (slot : Retryable state.session (crates.urls.canonicalKey page.url)) (missing : page ∉ appended)
    {session : CommitSession}
    (claims : session = claimed state.session page.url (contentHash crates page)) :
    ∃ appended' history, ItemOutcome crates state appended page
      (driveItem crates outputPath runId { state with session } page env) appended' history := by
  subst claims
  have passed : (chunkOf crates page env).validate crates = .ok (chunkOf crates page env) :=
    pageReady.exportable.validate env.stamp
  unfold driveItem
  simp only [passed, cancelledIn_false _ pageReady.uncancelled, Bool.false_eq_true, ↓reduceIte]
  generalize returned : state.exporter.export crates outputPath env state.outputs
    (chunkOf crates page env) = exported
  obtain ⟨result, exporter, outputs⟩ := exported
  obtain ⟨same, fits, outcome⟩ := export_logs ready.logs ready.fits safe
    pageReady.written returned
  -- a record that is retried is not newer than the clock, so its slot takes what is saved
  have onTime : ∀ old, state.session.records[crates.urls.canonicalKey page.url]? = some old →
      old.updatedAt ≤ env.now := by
    intro old held
    obtain unseen | ⟨record, found, unproven, -⟩ := slot
    · rw [unseen] at held
      cases held
    · rw [found] at held
      obtain rfl := Option.some.inj held
      exact pageReady.onTime _ found unproven.unhashed
  have otherFile : state.exporter = .vector → outputs.jsonl = state.outputs.jsonl := by
    intro vector
    rw [vector] at returned
    cases returned
    rfl
  obtain ⟨rfl, logs, clean⟩ | ⟨failed, logs⟩ := outcome
  · -- the document is in the file, so the page commits
    have files : FilesOutcome crates state appended page exporter outputs (appended ++ [page]) :=
      ⟨.inr ⟨missing, rfl⟩, logs, fits, same, fun torn => absurd torn clean, otherFile⟩
    have commits : Commits (claimed state.session page.url (contentHash crates page))
        (crates.urls.canonicalKey page.url) (contentHash crates page) _ :=
      commitItem_commits crates (claimed state.session page.url (contentHash crates page))
        ready.context ready.valid pageReady.named slot onTime outputPath runId
    exact ⟨appended ++ [page], commits.itemOutcome files (by simp) nofun⟩
  · -- nothing is in the file, and the record says that nothing is known
    cases result with
    | ok => exact absurd rfl failed
    | error e =>
      have files : FilesOutcome crates state appended page exporter outputs appended :=
        ⟨.inl rfl, logs, fits, same, fun _ => .inr missing, otherFile⟩
      have fails := failItem_fails crates
        (claimed state.session page.url (contentHash crates page)) ready.context ready.valid
        pageReady.named slot (classifyExportFailure e) e.text env.now
      exact ⟨appended, fails.itemOutcome onTime files nofun⟩

theorem processSingleItem_outcome (outputPath runId : String)
    (ready : SessionReady crates state appended ctx)
    (pageReady : PageReady crates state appended page env)
    (safe : state.exporter = .vector → Decides crates state page .driveAndCommit →
      page ∉ appended → AppendGuard state.outputs appended.length env.append) :
    ∃ appended' history, ItemOutcome crates state appended page
      (processSingleItem crates outputPath runId state page env) appended' history := by
  rw [processSingleItem_fresh pageReady.unclaimed]
  cases pageReady.phase with
  | committed found here listed decided =>
    simp only [decided]
    refine ⟨appended, [], ?_⟩
    constructor
    case files => exact ready.filesOutcome page
    case settled => exact fun _ => ⟨listed, _, found, here⟩
    case ascends => exact ⟨fun _ _ _ member => (List.not_mem_nil member).elim, .nil⟩
    case valid => exact fun _ member => (List.not_mem_nil member).elim
    case states => exact fun _ member => (List.not_mem_nil member).elim
    case goesOn => nofun
    all_goals rfl
  | flushed slot listed decided =>
    simp only [decided, cancelledIn_false _ pageReady.uncancelled, Bool.false_eq_true, ↓reduceIte]
    have commits := promoteFromFlushProof_commits crates
      (claimed state.session page.url (contentHash crates page)) ready.context ready.valid
      pageReady.named slot outputPath env.now
    exact ⟨appended, commits.itemOutcome (ready.filesOutcome page) listed nofun⟩
  | pending slot missing decided =>
    simp only [decided]
    exact driveItem_outcome outputPath runId ready pageReady
      (fun vector => safe vector ⟨pageReady.unclaimed, decided⟩ missing) slot missing rfl

end Webfang.Export
