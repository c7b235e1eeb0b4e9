import Webfang.Export.DurableLoop

/-!
# Exactly once

Every guarded sequence of killed and finished calls leaves a durable world, and a guarded call
that finishes without a failed append has then appended every page once and committed its
record. What the guard leaves out is what the resume gate does not see.
-/
namespace Webfang.Export

open Library Domain CommitSession

section Calls

variable {crates : ExportCrates} {campaign : Campaign}

/-! ### What the resume gate decides -/

section Gate

variable {session : CommitSession} {attempt : Attempt} {page : ScrapedContent} {record : RawRecord}

theorem decide_unseen (context : session.ctx = some attempt.context)
    (unseen : session.records[crates.urls.canonicalKey page.url]? = none) (hash : String) :
    session.decide crates.urls page.url (some hash) =
      if session.hashIndex.contains hash then .promoteFromFlushProof else .driveAndCommit := by
  simp [CommitSession.decide, context, Attempt.context, unseen]

theorem decide_unproven (context : session.ctx = some attempt.context)
    (found : session.records[crates.urls.canonicalKey page.url]? = some record)
    (unproven : Unproven record) (freshHash : Option String) :
    session.decide crates.urls page.url freshHash = .driveAndCommit := by
  have open_ : (Stateful.reconcile .committed record).isOk = false :=
    reconcile_mismatch (by rw [unproven.here]; nofun)
  simp [CommitSession.decide, context, Attempt.context, found, open_, unproven.unhashed]

theorem decide_flushed (context : session.ctx = some attempt.context) {hash : String}
    (found : session.records[crates.urls.canonicalKey page.url]? = some record)
    (flushed : Flushed hash record) (indexed : hash ∈ session.hashIndex) (freshHash : Option String) :
    session.decide crates.urls page.url freshHash = .promoteFromFlushProof := by
  have open_ : (Stateful.reconcile .committed record).isOk = false :=
    reconcile_mismatch (by rw [flushed.here]; nofun)
  simp [CommitSession.decide, context, Attempt.context, found, open_, flushed.hashed, indexed]

theorem decide_committed (context : session.ctx = some attempt.context)
    (found : session.records[crates.urls.canonicalKey page.url]? = some record)
    (valid : record.Valid) (here : record.status = .committed) (freshHash : Option String) :
    session.decide crates.urls page.url freshHash = .alreadyCommitted := by
  apply GatedOut.decide
  refine ⟨⟨_, context, rfl⟩, record, found, ?_⟩
  rw [valid.reconcile here]
  rfl

end Gate

/-! ### Opening a call -/

def Campaign.session (crates : ExportCrates) (attempt : Attempt) (records : DomainRecords)
    (outputs : Outputs) : CommitSession where
  ctx := some attempt.context
  records
  hashIndex := (buildContentHashIndex crates.fromStr outputs.jsonl).hashes
  driven := []
  skippedNonUtf8 := (buildContentHashIndex crates.fromStr outputs.jsonl).report.skippedNonUtf8

theorem Campaign.opened_eq (wellFormed : campaign.WellFormed crates) (attempt : Attempt) {world : World}
    {records : DomainRecords} (stores : Stores world.file records) (valid : AllValid records) :
    campaign.opened crates attempt world =
      (⟨Campaign.session crates attempt records world.outputs, campaign.exporter, world.outputs⟩,
        world.file) := by
  have selected : createExporter world.outputs campaign.format = campaign.exporter := by
    unfold Campaign.exporter
    cases format : campaign.format with
    | jsonl => rfl
    | vector => rfl
    | auto => exact absurd format wellFormed.format
  have loaded : campaign.store.loadOrInit {} world.file = (records, world.file) :=
    stores.loadOrInit valid campaign.store rfl rfl
  unfold Campaign.opened openState openSession
  simp only [loaded, selected]
  rfl

variable {appended : List ScrapedContent} {page : ScrapedContent} {outputs : Outputs}
  {records : DomainRecords} {attempt : Attempt} {world : World}

theorem Campaign.WellFormed.page_eq_of_hash (wellFormed : campaign.WellFormed crates)
    (free : campaign.CollisionFree crates) {other : ScrapedContent} (member : page ∈ campaign.results)
    (listed : other ∈ campaign.results) (same : contentHash crates other = contentHash crates page) :
    other = page :=
  List.inj_on_of_nodup_map wellFormed.contents listed member (free _ listed _ member same)

/-- The index of a JSONL file has the pages of the file, and what its torn rest looks like. -/
theorem mem_session_hashIndex (wellFormed : campaign.WellFormed crates)
    (free : campaign.CollisionFree crates) (jsonl : campaign.format ≠ .vector)
    (log : Log crates campaign outputs appended) (member : page ∈ campaign.results) :
    contentHash crates page ∈ (buildContentHashIndex crates.fromStr outputs.jsonl).hashes ↔
      page ∈ appended ∨
        lineChecksum crates.fromStr (tornBytes outputs.jsonl) = some (contentHash crates page) := by
  have logs := log.logs
  rw [campaign.exporter_jsonl wellFormed.format jsonl] at logs
  rw [mem_hashIndex_iff logs]
  refine or_congr_left ?_
  constructor
  · rintro ⟨other, listed, same⟩
    have here := wellFormed.page_eq_of_hash free member (log.known other listed) same
    rwa [← here]
  · exact fun listed => ⟨page, listed, rfl⟩

theorem hashIndex_vector (vector : campaign.format = .vector)
    (log : Log crates campaign outputs appended) (hash : String) :
    hash ∉ (buildContentHashIndex crates.fromStr outputs.jsonl).hashes := by
  rw [log.other vector]
  exact Std.ExtTreeSet.not_mem_empty

/-- Where a page stands when a guarded call opens. -/
theorem phase_of_ledger (wellFormed : campaign.WellFormed crates) (free : campaign.CollisionFree crates)
    (ledger : Ledger crates campaign records appended) (log : Log crates campaign world.outputs appended)
    (member : page ∈ campaign.results) {env : PageEnv}
    (resumable : campaign.Resumable crates world records env page) :
    Phase crates (Campaign.session crates attempt records world.outputs) appended page := by
  have context : (Campaign.session crates attempt records world.outputs).ctx = some attempt.context := rfl
  have inFile : page ∈ appended →
      HasRecord crates campaign.exporter world.outputs page.url (contentHash crates page) :=
    fun listed => log.logs.hasRecord listed
  have slot := ledger.slots page member
  cases held : records[pageKey crates page]? with
  | none =>
    by_cases listed : page ∈ appended
    · -- the line is there and its record is not
      have jsonl : campaign.format ≠ .vector := by
        intro vector
        obtain ⟨record, found, -⟩ := resumable.vector vector (inFile listed)
        rw [held] at found
        cases found
      have indexed := (mem_session_hashIndex wellFormed free jsonl log member).mpr (.inl listed)
      refine .flushed (.inl held) listed ?_
      rw [decide_unseen context held]
      exact if_pos (Std.ExtTreeSet.contains_iff_mem.mpr indexed)
    -- neither the lines nor the torn rest look like the page
    · have absent : contentHash crates page ∉
          (buildContentHashIndex crates.fromStr world.outputs.jsonl).hashes := by
        by_cases vector : campaign.format = .vector
        · exact hashIndex_vector vector log _
        · rw [mem_session_hashIndex wellFormed free vector log member, not_or]
          exact ⟨listed, resumable.torn vector held⟩
      refine .pending (.inl held) listed ?_
      rw [decide_unseen context held]
      exact if_neg fun indexed => absent (Std.ExtTreeSet.contains_iff_mem.mp indexed)
  | some record =>
    rw [held] at slot
    cases slot with
    | failing unproven =>
      -- the gate asks the record for a hash, and it has none
      have missing : page ∉ appended := fun listed =>
        resumable.hashed (inFile listed) record held unproven.unhashed
      have counted := (resumable.retried record held unproven.unhashed).2
      exact .pending (.inr ⟨record, held, unproven, counted⟩) missing
        (decide_unproven context held unproven _)
    | flushed flushed listed =>
      -- the hash of the record is in the index of the file
      have jsonl : campaign.format ≠ .vector := by
        intro vector
        obtain ⟨other, found, here⟩ := resumable.vector vector (inFile listed)
        rw [held] at found
        cases found
        rw [flushed.here] at here
        cases here
      have indexed := (mem_session_hashIndex wellFormed free jsonl log member).mpr (.inl listed)
      exact .flushed (.inr ⟨record, held, flushed⟩) listed (decide_flushed context held flushed indexed _)
    | committed here listed =>
      exact .committed held here listed
        (decide_committed context held (ledger.valid _ _ held) here _)

theorem reached_subset (campaign : Campaign) (event : RunEvent) :
    ∀ page ∈ campaign.reached event, page ∈ campaign.results := by
  intro page reached
  cases event with
  | killed attempt done cut =>
    cases cut with
    | none => exact List.mem_of_mem_take reached
    | some saved => exact List.mem_of_mem_take reached
  | finished attempt => exact reached

theorem opened_loop (wellFormed : campaign.WellFormed crates) (free : campaign.CollisionFree crates)
    {event : RunEvent} (durable : Durable crates campaign world appended)
    (guarded : campaign.Guarded crates world event) :
    Loop crates campaign event.attempt.context (campaign.opened crates event.attempt world).1
        (campaign.opened crates event.attempt world).2 appended ∧
      ∀ page ∈ campaign.reached event, ItemReady crates campaign
        (campaign.opened crates event.attempt world).1 appended
        (page, (event.attempt.env page).item) := by
  obtain ⟨⟨records, stores, ledger⟩, log⟩ := durable
  have resumable := guarded.resumable
  rw [campaign.opened_eq wellFormed event.attempt stores ledger.valid] at resumable ⊢
  constructor
  · constructor
    case same => exact .refl _
    case fits =>
      unfold Campaign.exporter
      cases campaign.format <;> first | trivial | nofun
    case context => rfl
    case stored => exact stores
    case ledger => exact ledger
    case log => exact log
  · intro page reached
    have member := reached_subset campaign event page reached
    refine ⟨member, ?_, fun _ => ⟨rfl, rfl, rfl, rfl, rfl⟩⟩
    constructor
    case unclaimed => exact List.not_mem_nil
    case phase => exact phase_of_ledger wellFormed free ledger log member (resumable page reached)
    case named => exact wellFormed.named page member
    case exportable => exact wellFormed.exportable page member
    case written => exact guarded.written page reached
    case onTime => exact fun old found unhashed => ((resumable page reached).retried old found unhashed).1
    case uncancelled => rfl

/-! ### One call -/

theorem map_key_items (campaign : Campaign) (attempt : Attempt) :
    (campaign.items attempt).map (fun item => pageKey crates item.1) =
      campaign.results.map (pageKey crates) := by
  rw [Campaign.items, List.map_map]
  rfl

theorem mem_items_take {attempt : Attempt} {done : Nat} {item : ScrapedContent × ItemEnv}
    (member : item ∈ (campaign.items attempt).take done) :
    ∃ page ∈ campaign.results.take done, item = (page, (attempt.env page).item) := by
  rw [Campaign.items, ← List.map_take] at member
  obtain ⟨page, listed, rfl⟩ := List.mem_map.mp member
  exact ⟨page, listed, rfl⟩

/-- The item that a call is killed in is that of a page behind the ones it is done with. -/
theorem drop_items {done : Nat} {env : ItemEnv} {rest : List (ScrapedContent × ItemEnv)}
    (wellFormed : campaign.WellFormed crates)
    (next : (campaign.items attempt).drop done = (page, env) :: rest) :
    page ∈ campaign.results.take (done + 1) ∧ env = (attempt.env page).item ∧
      pageKey crates page ∉
        ((campaign.items attempt).take done).map fun item => pageKey crates item.1 := by
  rw [Campaign.items, ← List.map_drop] at next
  -- the items are the results in order, each with its environment
  obtain ⟨other, later, split, same, -⟩ := List.map_eq_cons_iff.mp next
  obtain ⟨rfl, rfl⟩ := Prod.mk.inj same
  refine ⟨?_, rfl, ?_⟩
  · rw [List.take_add, split]
    exact List.mem_append_right _ List.mem_cons_self
  · have keys := wellFormed.keys
    rw [← List.take_append_drop done campaign.results, split, List.map_append, List.map_cons] at keys
    rw [List.map_take, map_key_items, ← List.map_take]
    intro before
    exact (List.disjoint_of_nodup_append keys) before List.mem_cons_self

theorem ranTo_loop (wellFormed : campaign.WellFormed crates) (free : campaign.CollisionFree crates)
    {done : Nat} {cut : Option Nat} (durable : Durable crates campaign world appended)
    (guarded : campaign.Guarded crates world (.killed attempt done cut)) :
    ∃ appended', Loop crates campaign attempt.context (campaign.ranTo crates attempt world done).1
        (campaign.ranTo crates attempt world done).2 appended' ∧
      ∀ page ∈ campaign.reached (.killed attempt done cut),
        pageKey crates page ∉
          ((campaign.items attempt).take done).map (fun item => pageKey crates item.1) →
        ItemReady crates campaign (campaign.ranTo crates attempt world done).1 appended'
          (page, (attempt.env page).item) := by
  obtain ⟨loop, ready⟩ := opened_loop wellFormed free durable guarded
  have distinct : (((campaign.items attempt).take done).map fun item => pageKey crates item.1).Nodup := by
    rw [List.map_take, map_key_items]
    exact wellFormed.keys.sublist (List.take_sublist _ _)
  have taken : ∀ item ∈ (campaign.items attempt).take done,
      ItemReady crates campaign (campaign.opened crates attempt world).1 appended item := by
    intro item member
    obtain ⟨page, listed, rfl⟩ := mem_items_take member
    apply ready page
    cases cut with
    | none => exact listed
    | some saved => exact (List.take_sublist_take_left (Nat.le_succ done)).subset listed
  obtain ⟨appended', ended, untouched, -⟩ := runItems_loop wellFormed guarded.counted distinct loop taken
    guarded.appends.1
  refine ⟨appended', ended, ?_⟩
  intro page reached later
  have before := ready page reached
  exact ⟨before.member, before.ready.untouched (untouched page later), before.succeed⟩

theorem killed_durable (wellFormed : campaign.WellFormed crates) (free : campaign.CollisionFree crates)
    {done : Nat} {cut : Option Nat} (durable : Durable crates campaign world appended)
    (guarded : campaign.Guarded crates world (.killed attempt done cut)) :
    ∃ appended', Durable crates campaign (campaign.killed crates attempt world done cut) appended' := by
  obtain ⟨middle, loop, waiting⟩ := ranTo_loop wellFormed free durable guarded
  unfold Campaign.killed
  cases cut with
  | none => exact ⟨middle, loop.durable⟩
  | some saved =>
    cases next : (campaign.items attempt).drop done with
    | nil => exact ⟨middle, loop.durable⟩
    | cons item rest =>
      obtain ⟨page, env⟩ := item
      obtain ⟨reached, rfl, later⟩ := drop_items wellFormed next
      have ready := waiting page reached later
      have whole := guarded.appends.2 saved page _ rest rfl next
      obtain ⟨final, history, outcome⟩ := processSingleItem_loop attempt.runId loop ready whole
        guarded.counted
      exact ⟨final, outcome.durable wellFormed loop ready.member ready.succeed saved⟩

theorem mergeRecords_self (records : DomainRecords) : mergeRecords records records = records := by
  apply Std.ExtTreeMap.ext_getElem?
  intro k
  rw [getElem?_mergeRecords]
  cases records[k]? with
  | none => rfl
  | some record => simp [LastWriter.resolve]

/-- A call that finishes has run the loop over all items, and merges its records once more. -/
theorem Campaign.finished_eq (crates : ExportCrates) (campaign : Campaign) (attempt : Attempt)
    (world : World) :
    campaign.finished crates attempt world =
      let opened := campaign.opened crates attempt world
      let ran := runItems crates campaign.outputPath attempt.runId opened.1 (campaign.items attempt)
      .ok {
        processedUrls := (ran.2.filter fun trace => trace.outcome = .driven).map ItemTrace.url
        traces := ran.2
        outputs := ran.1.outputs
        file := (mergePersist ran.1.session.records campaign.store {}
          (persistTraces campaign.store ran.2 (campaign.items attempt) opened.2)).2 } := rfl

/-- A guarded call that finishes leaves a durable world; without a failed append every page is
in the file and `COMMITTED` in the store. -/
theorem finished_durable (wellFormed : campaign.WellFormed crates) (free : campaign.CollisionFree crates)
    (durable : Durable crates campaign world appended)
    (guarded : campaign.Guarded crates world (.finished attempt)) {call : CallResult}
    (ran : campaign.finished crates attempt world = .ok call) :
    ∃ appended', Durable crates campaign ⟨call.outputs, call.file⟩ appended' ∧
      ((∀ trace ∈ call.traces, trace.route ≠ .exportFailed) →
        (∀ page ∈ campaign.results, page ∈ appended') ∧ campaign.AllCommitted crates call.file) := by
  obtain ⟨loop, ready⟩ := opened_loop wellFormed free durable guarded
  dsimp only [RunEvent.attempt] at loop ready
  have distinct : ((campaign.items attempt).map fun item => pageKey crates item.1).Nodup := by
    rw [map_key_items]
    exact wellFormed.keys
  have listed : ∀ page ∈ campaign.results, (page, (attempt.env page).item) ∈ campaign.items attempt :=
    fun page member => List.mem_map_of_mem member
  have taken : ∀ item ∈ campaign.items attempt,
      ItemReady crates campaign (campaign.opened crates attempt world).1 appended item := by
    intro item member
    obtain ⟨page, listed, rfl⟩ := List.mem_map.mp member
    exact ready page listed
  obtain ⟨appended', ended, -, settled⟩ := runItems_loop wellFormed guarded.counted distinct loop taken
    guarded.appends
  rw [campaign.finished_eq] at ran
  cases ran
  -- the last save merges the records into themselves
  have succeeds : ({} : Io).Succeeds := ⟨rfl, rfl, rfl, rfl, rfl⟩
  have merged := mergePersist_stores campaign.store succeeds ended.stored ended.ledger.valid
    (runItems crates campaign.outputPath attempt.runId (campaign.opened crates attempt world).1
      (campaign.items attempt)).1.session.records
  rw [mergeRecords_self] at merged
  refine ⟨appended', ⟨⟨_, merged, ended.ledger⟩, ended.log⟩, ?_⟩
  intro clean
  have all := settled clean
  exact ⟨fun page member => (all _ (listed page member)).1,
    _, merged, fun page member => (all _ (listed page member)).2⟩

/-! ### Any number of calls -/

theorem reached_durable (wellFormed : campaign.WellFormed crates) (free : campaign.CollisionFree crates)
    (reached : campaign.Reached crates world) : ∃ appended, Durable crates campaign world appended := by
  apply reached.invariant (motive := fun world => ∃ appended, Durable crates campaign world appended)
  · exact ⟨[], durable_start⟩
  · rintro before event next ⟨appended, durable⟩ guarded taken
    -- one guarded call of either kind
    cases event with
    | killed attempt done cut =>
      cases taken
      exact killed_durable wellFormed free durable guarded
    | finished attempt =>
      dsimp only [Campaign.after] at taken
      cases returned : campaign.finished crates attempt before with
      | error e =>
        rw [returned] at taken
        cases taken
      | ok call =>
        rw [returned] at taken
        cases taken
        obtain ⟨appended', kept, -⟩ := finished_durable wellFormed free durable guarded returned
        exact ⟨appended', kept⟩

/-- A file that lists every page holds each of them once. -/
theorem Log.exactlyOnce (wellFormed : campaign.WellFormed crates)
    (log : Log crates campaign outputs appended) (all : ∀ page ∈ campaign.results, page ∈ appended) :
    campaign.ExactlyOnce crates outputs := by
  have same : appended.Perm campaign.results := by
    rw [List.perm_ext_iff_of_nodup log.nodup (wellFormed.keys.of_map _)]
    exact fun page => ⟨log.known page, all page⟩
  obtain ⟨chunks, written, holds⟩ := log.logs
  refine ⟨appended, chunks, same, written, ?_⟩
  by_cases vector : campaign.format = .vector
  · rw [campaign.exporter_vector vector] at holds
    rw [vector]
    exact holds
  · have clean : ¬ Torn campaign.exporter outputs := by
      intro torn
      obtain ⟨page, member, missing⟩ := log.torn torn
      exact missing (all page member)
    rw [campaign.exporter_jsonl wellFormed.format vector] at holds clean
    have bytes := holds.jsonl_bytes clean
    cases selected : campaign.format with
    | jsonl => exact bytes
    | vector => exact absurd selected vector
    | auto => exact absurd selected wellFormed.format

/-- After any guarded calls, killed or finished, a guarded call that finishes with no failed
append leaves one record of each result in the output file and every result `COMMITTED`. -/
theorem exported_exactly_once (wellFormed : campaign.WellFormed crates)
    (free : campaign.CollisionFree crates) (reached : campaign.Reached crates world)
    (guarded : campaign.Guarded crates world (.finished attempt)) {call : CallResult}
    (finished : campaign.finished crates attempt world = .ok call)
    (clean : ∀ trace ∈ call.traces, trace.route ≠ .exportFailed) :
    campaign.ExactlyOnce crates call.outputs ∧ campaign.AllCommitted crates call.file := by
  obtain ⟨appended, durable⟩ := reached_durable wellFormed free reached
  obtain ⟨appended', kept, settled⟩ := finished_durable wellFormed free durable guarded finished
  obtain ⟨all, committed⟩ := settled clean
  exact ⟨kept.log.exactlyOnce wellFormed all, committed⟩

end Calls

/-! One page with content `a`, exported to the JSONL file. -/

namespace OnePage

open PlainCrates

def only : ScrapedContent := page "https://example.com/a" "a"

def crates : ExportCrates := printing [only]

def campaign : Campaign where
  outputPath := "export.jsonl"
  store := ⟨"example.com"⟩
  format := .jsonl
  results := [only]

/-- A call at the given time; its append fails before it writes, or goes through. -/
def attempt (fault : Option AppendFault) (now : Int64) : Attempt where
  runId := "run"
  env _ := { append := { fault }, now, stamp, createdAt }

theorem only_written (now : Int64) (fault : Option AppendFault) :
    Written crates only (chunkOf crates only ((attempt fault now).env only).item) where
  stamped := ⟨stamp, rfl⟩
  text := writable_printing (by decide +kernel) (by decide +kernel) List.mem_cons_self
  nonempty := by
    show serializeLine crates (DocumentChunk.fromScrapedContent crates only stamp) ≠ []
    decide

theorem campaign_wellFormed : campaign.WellFormed crates where
  format := nofun
  keys := List.nodup_singleton _
  contents := List.nodup_singleton _
  exportable := by
    intro page member
    rw [List.mem_singleton.mp member]
    exact ⟨by decide, by decide, by decide, nofun, nofun, nofun, by decide⟩
  named := by
    intro page member
    rw [List.mem_singleton.mp member]
    exact ⟨by decide, by decide⟩

theorem campaign_collisionFree : campaign.CollisionFree crates := by
  intro a first b second _
  rw [List.mem_singleton.mp first, List.mem_singleton.mp second]

theorem resumable_unseen {world : World} {records : DomainRecords} (env : PageEnv)
    (unseen : records[pageKey crates only]?.isNone = true)
    (torn : (lineChecksum crates.fromStr (tornBytes world.outputs.jsonl)).isNone = true) :
    campaign.Resumable crates world records env only := by
  rw [Option.isNone_iff_eq_none] at unseen torn
  constructor
  case hashed =>
    intro _ record found
    rw [unseen] at found
    cases found
  case vector => nofun
  case torn =>
    intro _ _
    rw [torn]
    nofun
  case retried =>
    intro record found
    rw [unseen] at found
    cases found

theorem appendsWhole_jsonl {state : ExportState} (page : ScrapedContent) (env : ItemEnv)
    (jsonl : state.exporter = .jsonl .unopened) : AppendsWhole crates state page env := by
  intro vector
  rw [jsonl] at vector
  cases vector

/-- The world of a call that died between its append and the first save. -/
def cutWorld : World := campaign.killed crates (attempt none 1) World.start 0 (some 0)

theorem guarded_cut : campaign.Guarded crates World.start (.killed (attempt none 1) 0 (some 0)) where
  written page member := by
    rw [List.mem_singleton.mp member]
    exact only_written 1 none
  resumable page member := by
    rw [List.mem_singleton.mp member]
    exact resumable_unseen _ (by decide +kernel) (by decide +kernel)
  appends := ⟨trivial, fun _ page env _ _ _ => appendsWhole_jsonl page env rfl⟩
  counted := nofun

theorem guarded_resumed : campaign.Guarded crates cutWorld (.finished (attempt none 2)) where
  written page member := by
    rw [List.mem_singleton.mp member]
    exact only_written 2 none
  resumable page member := by
    rw [List.mem_singleton.mp member]
    exact resumable_unseen _ (by decide +kernel) (by decide +kernel)
  appends := ⟨appendsWhole_jsonl _ _ rfl, fun _ => trivial⟩
  counted := nofun

def onlyLine : Bytes :=
  serializeLine crates (DocumentChunk.fromScrapedContent crates only stamp)

/-- The items of a call over the line of the page. -/
def resumed (world : World) (now : Int64) : ExportState × List ItemTrace :=
  runItems crates campaign.outputPath (attempt none now).runId
    ⟨{ ctx := some (attempt none now).context
       records := (campaign.store.loadOrInit {} world.file).1
       hashIndex := JsonlChecksumIndex.empty.hashes.insert (contentHash crates only)
       driven := []
       skippedNonUtf8 := 0 },
      .jsonl .unopened, ⟨some (onlyLine ++ [newline]), none⟩⟩ (campaign.items (attempt none now))

theorem finished_resumed {world : World} (outputs : world.outputs = ⟨some (onlyLine ++ [newline]), none⟩)
    (now : Int64) : (campaign.finished crates (attempt none now) world).toOption.map
      (fun call => (call.traces, call.outputs)) =
        some ((resumed world now).2, (resumed world now).1.outputs) := by
  have written := only_written now none
  unfold Campaign.finished
  rw [outputs]
  exact processResults_of_opened rfl
    (openState_serializeLine written.text.jsonl written.nonempty (attempt none now).context rfl)

theorem outputs_eq {world : World} (jsonl : world.outputs.jsonl = some (onlyLine ++ [newline]))
    (vector : world.outputs.vector = none) : world.outputs = ⟨some (onlyLine ++ [newline]), none⟩ := by
  rw [← jsonl, ← vector]

def routes (finished : Except ExporterError CallResult) : Option (List Route) :=
  finished.toOption.map fun call => call.traces.map ItemTrace.route

end OnePage

open OnePage in
/-- A call dies behind its append, and the next one promotes the page from its line. -/
theorem exported_exactly_once_cut :
    ∃ call, campaign.finished crates (attempt none 2) cutWorld = .ok call ∧
      campaign.ExactlyOnce crates call.outputs ∧ campaign.AllCommitted crates call.file := by
  have promoted : routes (campaign.finished crates (attempt none 2) cutWorld) = some [.promoted] := by
    have ran := congrArg (Option.map fun found => found.1.map ItemTrace.route)
      (finished_resumed (@outputs_eq cutWorld (by decide +kernel) (by decide +kernel)) 2)
    rw [Option.map_map] at ran
    exact ran.trans (by decide +kernel)
  cases finished : campaign.finished crates (attempt none 2) cutWorld with
  | error e =>
    rw [finished] at promoted
    cases promoted
  | ok call =>
    rw [finished] at promoted
    have taken : call.traces.map ItemTrace.route = [.promoted] := Option.some.inj promoted
    have reached : campaign.Reached crates cutWorld := .step .start guarded_cut rfl
    refine ⟨call, rfl, ?_⟩
    apply exported_exactly_once campaign_wellFormed campaign_collisionFree reached guarded_resumed
      finished
    intro trace traced failed
    have listed : ItemTrace.route trace ∈ [Route.promoted] := taken ▸ List.mem_map_of_mem traced
    rw [failed] at listed
    cases List.mem_singleton.mp listed

namespace OnePage

def failedThenCut : List RunEvent :=
  [.finished (attempt (some .beforeCut) 1), .killed (attempt none 2) 0 (some 0)]

/-- The routes of a last call, and the number of lines it leaves. -/
def lastCall : Option (List Route × Nat) :=
  (runEvents (campaign.after crates) World.start failedThenCut).bind fun world =>
    (campaign.finished crates (attempt none 3) world).toOption.map fun call =>
      (call.traces.map ItemTrace.route, (outputBytes call.outputs.jsonl).count newline)

theorem one_line {outputs : Outputs} (once : campaign.ExactlyOnce crates outputs) :
    (outputBytes outputs.jsonl).count newline = 1 := by
  obtain ⟨appended, chunks, same, written, bytes⟩ := once
  obtain rfl := List.perm_singleton.mp same
  obtain ⟨chunk, others, first, nothing, rfl⟩ := List.forall₂_cons_left_iff.mp written
  obtain rfl := List.forall₂_nil_left_iff.mp nothing
  have line : outputBytes outputs.jsonl = ([chunk].map (jsonlLine crates)).flatten := bytes
  have flat : (serializeLine crates chunk).count newline = 0 :=
    List.count_eq_zero.mpr first.text.jsonl.newline_notMem
  rw [line, List.map_singleton, List.flatten_singleton, jsonlLine, List.count_append, flat]
  rfl

end OnePage

open OnePage in
/-- A failed append leaves a record without a hash; the next call appends the page and dies
before it saves; the last call takes the record's word and appends the page again. -/
theorem appended_twice :
    campaign.WellFormed crates ∧ campaign.CollisionFree crates ∧
      ∃ world call, runEvents (campaign.after crates) World.start failedThenCut = some world ∧
        campaign.finished crates (attempt none 3) world = .ok call ∧
        (∀ trace ∈ call.traces, trace.route ≠ .exportFailed) ∧
        ¬ campaign.ExactlyOnce crates call.outputs := by
  refine ⟨campaign_wellFormed, campaign_collisionFree, ?_⟩
  have ran : lastCall = some ([.exported], 2) := by
    have reached : (runEvents (campaign.after crates) World.start failedThenCut).any (fun world =>
        (decide (world.outputs.jsonl = some (onlyLine ++ [newline])) &&
          decide (world.outputs.vector = none)) &&
        decide ((resumed world 3).2.map ItemTrace.route = [.exported] ∧
          (outputBytes (resumed world 3).1.outputs.jsonl).count newline = 2)) = true := by decide +kernel
    obtain ⟨world, reached, facts⟩ := (Option.any_eq_true _ _).mp reached
    simp only [Bool.and_eq_true, decide_eq_true_eq] at facts
    have finished := congrArg (Option.map fun found : List ItemTrace × Outputs =>
      (found.1.map ItemTrace.route, (outputBytes found.2.jsonl).count newline))
      (finished_resumed (outputs_eq facts.1.1 facts.1.2) 3)
    rw [Option.map_map, Option.map_some, facts.2.1, facts.2.2] at finished
    rw [lastCall, reached]
    exact finished
  obtain ⟨world, reached, last⟩ := Option.bind_eq_some_iff.mp ran
  cases finished : campaign.finished crates (attempt none 3) world with
  | error e =>
    rw [finished] at last
    cases last
  | ok call =>
    rw [finished] at last
    obtain ⟨taken, lines⟩ := Prod.mk.inj (Option.some.inj last)
    refine ⟨world, call, reached, finished, ?_, ?_⟩
    · intro trace traced failed
      have listed : trace.route ∈ [Route.exported] := taken ▸ List.mem_map_of_mem traced
      rw [failed] at listed
      cases List.mem_singleton.mp listed
    · intro once
      rw [one_line once] at lines
      cases lines

end Webfang.Export
