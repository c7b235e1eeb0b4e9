import Webfang.Export.OutputRecords

/-!
# Committed pages have their line

What a call of `process_results` proves about the pages it advances to `COMMITTED`. A page
that was appended has its own line or document. A promotion appends nothing: the index it
rests on holds hashes without their URLs, and it is built from the JSONL file whatever the
format, so its page has a record exactly when the selected file already held one.
-/
namespace Webfang.Export

open Library Domain Segments CommitSession

variable {crates : ExportCrates}

/-! ### One item -/

/-- The hash a promotion leaves on a `COMMITTED` record, read off the record it finds: that
of an `EXPORTED` record stays, any other record takes the hash of the page at hand. `none`
when the transition is refused. -/
def promotedHash (session : CommitSession) (url key freshHash : String) : Option String :=
  match session.records[key]? with
  | none => if Text.isBlank url || Text.isBlank key then none else some freshHash
  | some record =>
    match record.status with
    | .exported =>
      if record.lastError = none ∧ record.attempts ≠ 0 then record.contentHash else none
    | .committed =>
      -- only a record that carries an error gets here, and it starts over
      if Text.isBlank record.url || Text.isBlank record.canonicalUrl then none else some freshHash
    | _ => if record.attempts + 1 ≠ 0 then some freshHash else none

def committedOnly (slot : Option RawRecord) : Option RawRecord :=
  slot.filter fun record => record.status = .committed

theorem committedOnly_settle {flushed : RawRecord} (held : Held flushed)
    (here : flushed.status = .exported) :
    committedOnly (some (settle flushed)) =
      if flushed.lastError = none ∧ flushed.attempts ≠ 0 then
        some { flushed with status := .committed }
      else none := by
  rw [settle_eq held here, committedOnly]
  split
  · rfl
  · simp [Option.filter, here]

theorem committedOnly_flushOpen {record : RawRecord}
    (identity : isMeaninglessIdentity record.url = false) (contentHash outputLocation : String)
    (now : Int64) :
    (committedOnly (some (settle (flushOpen record contentHash outputLocation now)))).bind
        RawRecord.contentHash =
      if record.attempts + 1 ≠ 0 then some contentHash else none := by
  rw [committedOnly_settle (flushOpen_held identity _ _ _) rfl]
  by_cases wrapped : record.attempts + 1 = 0 <;> simp [flushOpen, wrapped]

theorem promotedHash_eq (session : CommitSession) (held : AllHeld session.records)
    (url key runId outputLocation contentHash : String) (now : Int64) :
    (committedOnly ((exportedForPromotion session url key runId outputLocation contentHash now).map
        fun exported => settle exported.record)).bind RawRecord.contentHash =
      promotedHash session url key contentHash := by
  -- a fresh record passes unless one of its names is blank
  have fresh (url key : String) :
      (committedOnly (((freshDiscovered url key runId now).map fun fresh =>
          flushOpen fresh.record contentHash outputLocation now).map settle)).bind
            RawRecord.contentHash =
        if Text.isBlank url || Text.isBlank key then none else some contentHash := by
    rw [freshDiscovered_eq]
    cases blank : Text.isBlank url with
    | true => rfl
    | false =>
      cases Text.isBlank key with
      | true => rfl
      | false =>
        rw [Bool.or_self, if_neg Bool.false_ne_true, Option.map_some, Option.map_some,
          committedOnly_flushOpen (by exact blank)]
        rfl
  unfold exportedForPromotion entryOrDiscovered promotedHash
  cases found : session.records[key]? with
  | none =>
    rw [← fresh url key]
    cases created : freshDiscovered url key runId now with
    | none => rfl
    | some s =>
      obtain ⟨valid, here⟩ := freshDiscovered_valid created
      simp only [Option.map_some, Option.bind_some, driveToExportFlushed_eq (held_of_valid valid), here]
  | some record =>
    have recordHeld := held key record found
    simp only [Option.bind_some, driveToExportFlushed_eq recordHeld]
    cases here : record.status with
    | exported =>
      simp only [Option.map_some]
      rw [committedOnly_settle recordHeld here]
      split <;> rfl
    | committed =>
      -- a committed record gives way to a fresh one of its names
      simp only
      rw [← fresh record.url record.canonicalUrl]
      cases freshDiscovered record.url record.canonicalUrl runId now <;> rfl
    | _ => exact committedOnly_flushOpen recordHeld.identity contentHash outputLocation now

theorem decide_promote {urls : UrlCrates} {session : CommitSession} {url : String}
    {freshHash : Option String}
    (decided : session.decide urls url freshHash = .promoteFromFlushProof) :
    (∃ ctx, session.ctx = some ctx ∧ ctx.resume = true) ∧
      ∀ record, session.records[urls.canonicalKey url]? = some record →
        record.contentHash.isSome := by
  unfold CommitSession.decide at decided
  cases context : session.ctx with
  | none =>
    rw [context] at decided
    cases decided
  | some ctx =>
    rw [context] at decided
    dsimp only at decided
    split at decided
    · cases decided
    next resumes =>
      refine ⟨⟨ctx, rfl, by simpa using resumes⟩, fun record found => ?_⟩
      rw [found] at decided
      dsimp only at decided
      split at decided
      · cases decided
      · split at decided
        next hash present => simp [present]
        next => cases decided

/-- A page whose record passes the gate as `COMMITTED`. -/
def GatedOut (session : CommitSession) (key : String) : Prop :=
  (∃ ctx, session.ctx = some ctx ∧ ctx.resume = true) ∧
    ∃ record, session.records[key]? = some record ∧
      (Stateful.reconcile .committed record).isOk = true

theorem GatedOut.decide {urls : UrlCrates} {session : CommitSession} (url : String)
    (gated : GatedOut session (urls.canonicalKey url)) (freshHash : Option String) :
    session.decide urls url freshHash = .alreadyCommitted := by
  obtain ⟨⟨ctx, context, resume⟩, record, found, reconciles⟩ := gated
  simp [CommitSession.decide, context, resume, found, reconciles]

/-- What the loop knows before each item. -/
structure Ready (state : ExportState) : Prop where
  fits : state.exporter.Fits state.outputs
  held : AllHeld state.session.records

/-- The gate reaches a decision on the item, as it is not a repetition within the call. -/
def Decides (crates : ExportCrates) (state : ExportState) (result : ScrapedContent)
    (decision : ItemDecision) : Prop :=
  (result.url, contentHash crates result) ∉ state.session.driven ∧
    state.session.decide crates.urls result.url (some (contentHash crates result)) = decision

/-- A promotion that will commit, with its hash. -/
def Promotes (crates : ExportCrates) (state : ExportState) (result : ScrapedContent)
    (hash : String) : Prop :=
  Decides crates state result .promoteFromFlushProof ∧
    promotedHash state.session result.url (crates.urls.canonicalKey result.url)
      (contentHash crates result) = some hash

/-- A promotion that will commit finds a record of its own page in the selected file. -/
def PromotionBacked (crates : ExportCrates) (state : ExportState) (result : ScrapedContent)
    (_ : ItemEnv) : Prop :=
  ∀ hash, Promotes crates state result hash →
    HasRecord crates state.exporter state.outputs result.url hash

/-- An item that is appended is refused before the file changes, or the file is ready for it. -/
def AppendBacked (crates : ExportCrates) (state : ExportState) (result : ScrapedContent)
    (env : ItemEnv) : Prop :=
  Decides crates state result .driveAndCommit → AppendSafe state.exporter state.outputs env

/-- What one item leaves behind. An advance has its record, unless it is a promotion. -/
structure ItemKept (crates : ExportCrates) (state : ExportState) (result : ScrapedContent)
    (step : ItemStep) : Prop where
  ready : Ready step.state
  same : SameFile state.exporter step.state.exporter
  kept : ∀ url hash, HasRecord crates state.exporter state.outputs url hash →
    HasRecord crates step.state.exporter step.state.outputs url hash
  advanced : ∀ record, (step.trace crates result.url).advanced = some record →
    ∃ hash, record.contentHash = some hash ∧
      (HasRecord crates step.state.exporter step.state.outputs result.url hash ∨
        Promotes crates state result hash)

theorem ItemTrace.advanced_eq {trace : ItemTrace}
    (moved : trace.route = .promoted ∨ trace.route = .exported) :
    trace.advanced = committedOnly trace.record := if_pos moved

theorem ItemKept.skipped {state after : ExportState} {result : ScrapedContent} {route : Route}
    {outcome : SingleItemOutcome} {saves : List Save} (ready : Ready after)
    (exporter : after.exporter = state.exporter) (outputs : after.outputs = state.outputs)
    (quiet : ¬ (route = .promoted ∨ route = .exported)) :
    ItemKept crates state result ⟨after, outcome, route, saves⟩ := by
  refine ⟨ready, exporter ▸ .refl _, fun url hash held => ?_, fun record moved => ?_⟩
  · rwa [exporter, outputs]
  · have still : (ItemStep.trace crates ⟨after, outcome, route, saves⟩ result.url).advanced = none :=
      if_neg quiet
    rw [still] at moved
    cases moved

theorem eq_of_validates {result : ScrapedContent} {env : ItemEnv} {validated : DocumentChunk}
    (passed : (chunkOf crates result env).validate crates = .ok validated) :
    validated = chunkOf crates result env := DocumentChunk.eq_of_validate passed

/-- The drive route: the line of the item is in the file before its record advances. -/
theorem driveItem_kept (outputPath runId : String) {state : ExportState}
    {result : ScrapedContent} {env : ItemEnv} (ready : Ready state)
    (text : Delimited crates (chunkOf crates result env))
    (safe : AppendSafe state.exporter state.outputs env) :
    ItemKept crates state result (driveItem crates outputPath runId state result env) := by
  unfold driveItem
  dsimp only
  cases passed : (chunkOf crates result env).validate crates with
  | error e =>
    refine ⟨⟨ready.fits, failItem_held ready.held _ _ _ _⟩, .refl _, fun _ _ held => held, ?_⟩
    intro record moved
    cases moved
  | ok validated =>
    cases eq_of_validates passed
    dsimp only
    cases returned : state.exporter.export crates outputPath env state.outputs
        (chunkOf crates result env) with
    | mk exportResult rest =>
      obtain ⟨exporter, outputs⟩ := rest
      obtain ⟨same, fits, kept, -, added⟩ := export_holds ready.fits text safe returned
      cases exportResult with
      | error e =>
        refine ⟨⟨fits, failItem_held ready.held _ _ _ _⟩, same, kept, ?_⟩
        intro record moved
        cases moved
      | ok =>
        -- the record that was committed carries the hash of the appended document
        refine ⟨⟨fits, commitItem_held ready.held _ _ _ _ _⟩, same, kept, ?_⟩
        intro record moved
        rw [ItemTrace.advanced_eq (.inr rfl)] at moved
        obtain ⟨found, -⟩ := Option.filter_eq_some_iff.mp moved
        have slot := (commitItem_spec crates.urls state.session result.url
          (contentHash crates result) outputPath runId env.now).2
          (crates.urls.canonicalKey result.url)
        rw [if_pos rfl] at slot
        rw [ItemStep.trace] at found
        dsimp only at found
        rw [slot] at found
        obtain ⟨exported, made, rfl⟩ := Option.map_eq_some_iff.mp found
        obtain ⟨-, -, hashed⟩ := exportedForCommit_spec ready.held made
        exact ⟨contentHash crates result, by rw [settle_contentHash, hashed], .inl (added rfl)⟩

def claimed (session : CommitSession) (url hash : String) : CommitSession :=
  { session with driven := (url, hash) :: session.driven }

theorem processSingleItem_duplicate {outputPath runId : String} {state : ExportState}
    {result : ScrapedContent} {env : ItemEnv}
    (repeated : (result.url, contentHash crates result) ∈ state.session.driven) :
    processSingleItem crates outputPath runId state result env = ⟨state, .skipped, .duplicate, []⟩ := by
  simp [processSingleItem, claimAppend, repeated]

/-- An item that is not a repetition takes the way its decision says. -/
theorem processSingleItem_fresh {outputPath runId : String} {state : ExportState}
    {result : ScrapedContent} {env : ItemEnv}
    (fresh : (result.url, contentHash crates result) ∉ state.session.driven) :
    processSingleItem crates outputPath runId state result env =
      let hash := contentHash crates result
      let session := claimed state.session result.url hash
      match state.session.decide crates.urls result.url (some hash) with
      | .alreadyCommitted => ⟨{ state with session }, .skipped, .alreadyCommitted, []⟩
      | .promoteFromFlushProof =>
        let (session, saves) :=
          session.promoteFromFlushProof crates.urls result.url outputPath hash env.now
        ⟨{ state with session },
          if cancelledIn session env then .cancelled else .driven, .promoted, saves⟩
      | .driveAndCommit => driveItem crates outputPath runId { state with session } result env := by
  have claim : state.session.claimAppend result.url (contentHash crates result) =
      (claimed state.session result.url (contentHash crates result), true) := by
    simp [claimAppend, fresh, claimed]
  unfold processSingleItem
  dsimp only
  rw [claim]
  rfl

/-- The promotion route: nothing is appended, so the record must be there already. -/
theorem promoted_record (outputPath : String) {state : ExportState} {result : ScrapedContent}
    (now : Int64) (ready : Ready state)
    (decided : state.session.decide crates.urls result.url (some (contentHash crates result)) =
      .promoteFromFlushProof) {session : CommitSession}
    (claims : session = claimed state.session result.url (contentHash crates result)) :
    (committedOnly (session.promoteFromFlushProof crates.urls result.url outputPath
        (contentHash crates result) now).1.records[crates.urls.canonicalKey result.url]?).bind
          RawRecord.contentHash =
      promotedHash state.session result.url (crates.urls.canonicalKey result.url)
        (contentHash crates result) := by
  subst claims
  obtain ⟨⟨ctx, context, -⟩, -⟩ := decide_promote decided
  have slot := (promoteFromFlushProof_spec crates.urls
    (claimed state.session result.url (contentHash crates result)) context result.url
    outputPath (contentHash crates result) now).2 (crates.urls.canonicalKey result.url)
  rw [if_pos rfl] at slot
  rw [slot]
  exact promotedHash_eq (claimed state.session result.url (contentHash crates result))
    ready.held _ _ _ _ _ _

theorem promoted_hashed (outputPath : String) {state : ExportState} {result : ScrapedContent}
    (now : Int64) (ready : Ready state)
    (decided : state.session.decide crates.urls result.url (some (contentHash crates result)) =
      .promoteFromFlushProof) {record : RawRecord}
    (moved : committedOnly ((claimed state.session result.url
      (contentHash crates result)).promoteFromFlushProof crates.urls result.url outputPath
        (contentHash crates result) now).1.records[crates.urls.canonicalKey result.url]? =
          some record) :
    record.contentHash.isSome := by
  obtain ⟨⟨ctx, context, -⟩, proven⟩ := decide_promote decided
  have slot := (promoteFromFlushProof_spec crates.urls
    (claimed state.session result.url (contentHash crates result)) context result.url
    outputPath (contentHash crates result) now).2 (crates.urls.canonicalKey result.url)
  rw [if_pos rfl] at slot
  rw [slot] at moved
  obtain ⟨found, -⟩ := Option.filter_eq_some_iff.mp moved
  obtain ⟨exported, made, rfl⟩ := Option.map_eq_some_iff.mp found
  rw [settle_contentHash]
  obtain ⟨entry, resolved, driven⟩ := Option.bind_eq_some_iff.mp made
  have entryHeld := entryOrDiscovered_held
    (claimed state.session result.url (contentHash crates result)) ready.held resolved
  rw [driveToExportFlushed_eq entryHeld] at driven
  split at driven
  next here =>
    -- an `EXPORTED` entry is a record the gate has seen, with its hash
    cases driven
    unfold entryOrDiscovered at resolved
    split at resolved
    next present =>
      cases resolved
      exact proven _ present
    next =>
      obtain ⟨fresh, created, rfl⟩ := Option.map_eq_some_iff.mp resolved
      rw [(freshDiscovered_valid created).2] at here
      cases here
  next =>
    obtain ⟨fresh, -, rfl⟩ := Option.map_eq_some_iff.mp driven
    rfl
  next =>
    cases driven
    rfl

theorem processSingleItem_kept (outputPath runId : String) {state : ExportState}
    {result : ScrapedContent} {env : ItemEnv} (ready : Ready state)
    (text : Delimited crates (chunkOf crates result env))
    (safe : AppendBacked crates state result env) :
    ItemKept crates state result (processSingleItem crates outputPath runId state result env) := by
  by_cases repeated : (result.url, contentHash crates result) ∈ state.session.driven
  · rw [processSingleItem_duplicate repeated]
    exact .skipped ready rfl rfl (by simp)
  have claimReady : Ready { state with
      session := claimed state.session result.url (contentHash crates result) } :=
    ⟨ready.fits, ready.held⟩
  rw [processSingleItem_fresh repeated]
  dsimp only
  cases decided : state.session.decide crates.urls result.url (some (contentHash crates result)) with
  | alreadyCommitted => exact .skipped claimReady rfl rfl (by simp)
  | promoteFromFlushProof =>
    -- nothing is appended, and the hash is what the record or the page brings
    obtain ⟨⟨ctx, context, -⟩, -⟩ := decide_promote decided
    have held := promoteFromFlushProof_held crates.urls
      (show AllHeld (claimed state.session result.url (contentHash crates result)).records from
        ready.held) context
      result.url outputPath (contentHash crates result) env.now
    dsimp only
    refine ⟨⟨ready.fits, held⟩, .refl _, fun _ _ held => held, ?_⟩
    intro record moved
    rw [ItemTrace.advanced_eq (.inl rfl)] at moved
    have hashed := promoted_hashed outputPath env.now ready decided moved
    obtain ⟨hash, present⟩ := Option.isSome_iff_exists.mp hashed
    have same := promoted_record outputPath env.now ready decided rfl
    dsimp only [ItemStep.trace] at moved
    rw [moved, Option.bind_some, present] at same
    exact ⟨hash, present, .inr ⟨⟨repeated, decided⟩, same.symm⟩⟩
  | driveAndCommit =>
    have driven := driveItem_kept outputPath runId claimReady text
      (safe ⟨repeated, decided⟩)
    refine ⟨driven.ready, driven.same, driven.kept, fun record moved => ?_⟩
    obtain ⟨hash, hashed, held | ⟨⟨again, -⟩, -⟩⟩ := driven.advanced record moved
    · exact ⟨hash, hashed, .inl held⟩
    · exact absurd List.mem_cons_self again

/-! ### The loop -/

/-- A condition on each item, in the state the loop meets it in. -/
def EachItem (crates : ExportCrates) (outputPath runId : String)
    (condition : ExportState → ScrapedContent → ItemEnv → Prop) :
    ExportState → List (ScrapedContent × ItemEnv) → Prop
  | _, [] => True
  | state, (result, env) :: rest =>
    condition state result env ∧
      ((processSingleItem crates outputPath runId state result env).outcome ≠ .cancelled →
        EachItem crates outputPath runId condition
          (processSingleItem crates outputPath runId state result env).state rest)

/-- Every page the loop advanced to `COMMITTED` has a record with its hash in the file. -/
def CommittedHaveRecords (crates : ExportCrates) (exporter : Exporter) (outputs : Outputs)
    (traces : List ItemTrace) : Prop :=
  ∀ trace ∈ traces, ∀ record, trace.advanced = some record →
    ∃ hash, record.contentHash = some hash ∧ HasRecord crates exporter outputs trace.url hash

/-- The run lemma: records persist to the end of the loop, and every advance has its own. -/
theorem runItems_kept {outputPath runId : String} {items : List (ScrapedContent × ItemEnv)}
    (texts : ∀ item ∈ items, Delimited crates (chunkOf crates item.1 item.2)) {state : ExportState}
    (ready : Ready state) (safe : EachItem crates outputPath runId (AppendBacked crates) state items)
    (backed : EachItem crates outputPath runId (PromotionBacked crates) state items) :
    (∀ url hash, HasRecord crates state.exporter state.outputs url hash →
      HasRecord crates state.exporter (runItems crates outputPath runId state items).1.outputs
        url hash) ∧
      CommittedHaveRecords crates state.exporter
        (runItems crates outputPath runId state items).1.outputs
        (runItems crates outputPath runId state items).2 := by
  induction items generalizing state with
  | nil =>
    refine ⟨fun _ _ held => held, ?_⟩
    intro trace member
    cases member
  | cons item rest ih =>
    obtain ⟨result, env⟩ := item
    obtain ⟨promotion, backed⟩ := backed
    obtain ⟨append, safe⟩ := safe
    have step := processSingleItem_kept outputPath runId ready
      (texts (result, env) List.mem_cons_self) append
    have recorded : ∀ record, ((processSingleItem crates outputPath runId state result env).trace
        crates result.url).advanced = some record → ∃ hash, record.contentHash = some hash ∧
          HasRecord crates (processSingleItem crates outputPath runId state result env).state.exporter
            (processSingleItem crates outputPath runId state result env).state.outputs result.url
            hash := by
      intro record moved
      obtain ⟨hash, hashed, held | promotes⟩ := step.advanced record moved
      · exact ⟨hash, hashed, held⟩
      · exact ⟨hash, hashed, step.kept _ _ (promotion hash promotes)⟩
    simp only [runItems]
    generalize processSingleItem crates outputPath runId state result env = taken at *
    -- the loop ends here, or goes on from the state the item leaves
    split
    next =>
      refine ⟨fun url hash held => step.same.hasRecord.mpr (step.kept url hash held), ?_⟩
      intro trace member record moved
      rw [List.mem_singleton] at member
      subst member
      obtain ⟨hash, hashed, held⟩ := recorded record moved
      exact ⟨hash, hashed, step.same.hasRecord.mpr held⟩
    next going =>
      obtain ⟨kept, committed⟩ := ih
        (fun item member => texts item (List.mem_cons_of_mem _ member)) step.ready (safe going) (backed going)
      refine ⟨fun url hash held => step.same.hasRecord.mpr (kept url hash (step.kept url hash held)),
        ?_⟩
      intro trace member record moved
      rcases List.mem_cons.mp member with rfl | member
      · obtain ⟨hash, hashed, held⟩ := recorded record moved
        exact ⟨hash, hashed, step.same.hasRecord.mpr (kept _ hash held)⟩
      · obtain ⟨hash, hashed, held⟩ := committed trace member record moved
        exact ⟨hash, hashed, step.same.hasRecord.mpr held⟩

/-! ### The condition on the promotions is necessary

Once a page is `COMMITTED` under a resume context, the gate turns every later item of its
key away, so no record of its URL is appended afterwards. -/

theorem GatedOut.of_frame {before after : CommitSession} {key : String} (gated : GatedOut before key)
    (same : SameRun before after) (slot : after.records[key]? = before.records[key]?) :
    GatedOut after key := by
  obtain ⟨⟨ctx, context, resume⟩, record, found, reconciles⟩ := gated
  exact ⟨⟨ctx, same.ctx.trans context, resume⟩, record, slot.trans found, reconciles⟩

/-- What an item leaves to a page of key `key` that is `COMMITTED` already. -/
structure GatePersists (crates : ExportCrates) (url : String) (state after : ExportState) : Prop where
  gated : GatedOut after.session (crates.urls.canonicalKey url)
  records : ∀ hash, HasRecord crates after.exporter after.outputs url hash →
    HasRecord crates state.exporter state.outputs url hash

theorem driveItem_gated (outputPath runId : String) {url : String} {state : ExportState}
    {result : ScrapedContent} {env : ItemEnv} (ready : Ready state)
    (text : Delimited crates (chunkOf crates result env))
    (safe : AppendSafe state.exporter state.outputs env)
    (gated : GatedOut state.session (crates.urls.canonicalKey url))
    (other : crates.urls.canonicalKey result.url ≠ crates.urls.canonicalKey url) :
    GatePersists crates url state (driveItem crates outputPath runId state result env).state := by
  -- another key's failure leaves the committed record alone
  have failed (errorClass : ErrorClass) (message : String) :
      GatedOut (state.session.failItem crates.urls result.url errorClass message env.now).1
        (crates.urls.canonicalKey url) := by
    obtain ⟨same, slots⟩ := failItem_spec crates.urls state.session result.url errorClass
      message env.now
    refine gated.of_frame same ?_
    rw [slots]
    cases state.session.ctx with
    | none => rfl
    | some ctx => exact if_neg other
  unfold driveItem
  dsimp only
  cases passed : (chunkOf crates result env).validate crates with
  | error e => exact ⟨failed _ _, fun _ held => held⟩
  | ok validated =>
    cases eq_of_validates passed
    dsimp only
    cases returned : state.exporter.export crates outputPath env state.outputs
        (chunkOf crates result env) with
    | mk exportResult rest =>
      obtain ⟨exporter, outputs⟩ := rest
      obtain ⟨-, -, -, brings, -⟩ := export_holds ready.fits text safe returned
      have distinct : url ≠ (chunkOf crates result env).url := by
        rintro rfl
        exact other rfl
      cases exportResult with
      | error e => exact ⟨failed _ _, fun hash => brings url hash distinct⟩
      | ok =>
        obtain ⟨same, slots⟩ := commitItem_spec crates.urls state.session result.url
          (contentHash crates result) outputPath runId env.now
        refine ⟨gated.of_frame same ?_, fun hash => brings url hash distinct⟩
        rw [slots, if_neg other]

theorem processSingleItem_gated (outputPath runId : String) {url : String} {state : ExportState}
    {result : ScrapedContent} {env : ItemEnv} (ready : Ready state)
    (text : Delimited crates (chunkOf crates result env)) (safe : AppendBacked crates state result env)
    (gated : GatedOut state.session (crates.urls.canonicalKey url)) :
    GatePersists crates url state
      (processSingleItem crates outputPath runId state result env).state := by
  by_cases repeated : (result.url, contentHash crates result) ∈ state.session.driven
  · rw [processSingleItem_duplicate repeated]
    exact ⟨gated, fun _ held => held⟩
  rw [processSingleItem_fresh repeated]
  dsimp only
  by_cases same : crates.urls.canonicalKey result.url = crates.urls.canonicalKey url
  · -- the gate turns the item away
    have decided := GatedOut.decide result.url
      (show GatedOut state.session (crates.urls.canonicalKey result.url) by rw [same]; exact gated)
      (some (contentHash crates result))
    rw [decided]
    exact ⟨gated, fun _ held => held⟩
  · cases decided : state.session.decide crates.urls result.url (some (contentHash crates result)) with
    | alreadyCommitted => exact ⟨gated, fun _ held => held⟩
    | promoteFromFlushProof =>
      obtain ⟨⟨ctx, context, -⟩, -⟩ := decide_promote decided
      obtain ⟨moved, slots⟩ := promoteFromFlushProof_spec crates.urls
        (claimed state.session result.url (contentHash crates result)) context result.url
        outputPath (contentHash crates result) env.now
      refine ⟨?_, fun _ held => held⟩
      refine GatedOut.of_frame
        (show GatedOut (claimed state.session result.url (contentHash crates result))
          (crates.urls.canonicalKey url) from gated) moved ?_
      rw [slots, if_neg same]
    | driveAndCommit =>
      have driven := driveItem_gated outputPath runId
        (show Ready { state with
            session := claimed state.session result.url (contentHash crates result) } from
          ⟨ready.fits, ready.held⟩) text (safe ⟨repeated, decided⟩) gated same
      exact ⟨driven.gated, driven.records⟩

theorem runItems_gated {outputPath runId url : String} {items : List (ScrapedContent × ItemEnv)}
    (texts : ∀ item ∈ items, Delimited crates (chunkOf crates item.1 item.2)) {state : ExportState}
    (ready : Ready state) (safe : EachItem crates outputPath runId (AppendBacked crates) state items)
    (gated : GatedOut state.session (crates.urls.canonicalKey url)) {hash : String}
    (held : HasRecord crates state.exporter (runItems crates outputPath runId state items).1.outputs
      url hash) :
    HasRecord crates state.exporter state.outputs url hash := by
  induction items generalizing state with
  | nil => exact held
  | cons item rest ih =>
    obtain ⟨result, env⟩ := item
    obtain ⟨append, safe⟩ := safe
    have text := texts (result, env) List.mem_cons_self
    have step := processSingleItem_kept outputPath runId ready text append
    have persists := processSingleItem_gated outputPath runId ready text append gated
    simp only [runItems] at held
    generalize processSingleItem crates outputPath runId state result env = taken at *
    split at held
    next => exact persists.records hash (step.same.hasRecord.mp held)
    next going =>
      exact persists.records hash (ih (fun item member => texts item (List.mem_cons_of_mem _ member))
        step.ready (safe going) persists.gated (step.same.hasRecord.mp held))

/-- A promotion that will commit does, and the gate turns its page away from then on. -/
theorem promotes_advances (outputPath runId : String) {state : ExportState}
    {result : ScrapedContent} (env : ItemEnv) (ready : Ready state) {hash : String}
    (promotes : Promotes crates state result hash) :
    (∃ record, ((processSingleItem crates outputPath runId state result env).trace crates
        result.url).advanced = some record ∧ record.contentHash = some hash) ∧
      GatedOut (processSingleItem crates outputPath runId state result env).state.session
        (crates.urls.canonicalKey result.url) ∧
      (processSingleItem crates outputPath runId state result env).state.outputs = state.outputs ∧
      (processSingleItem crates outputPath runId state result env).state.exporter =
        state.exporter := by
  obtain ⟨⟨fresh, decided⟩, hashed⟩ := promotes
  have recorded := promoted_record outputPath env.now ready decided rfl
  rw [hashed] at recorded
  obtain ⟨record, moved, present⟩ := Option.bind_eq_some_iff.mp recorded
  obtain ⟨⟨ctx, context, resume⟩, -⟩ := decide_promote decided
  obtain ⟨same, slots⟩ := promoteFromFlushProof_spec crates.urls
    (claimed state.session result.url (contentHash crates result)) context result.url
    outputPath (contentHash crates result) env.now
  rw [processSingleItem_fresh fresh]
  dsimp only
  rw [decided]
  refine ⟨⟨record, ?_, present⟩, ⟨⟨ctx, same.ctx.trans context, resume⟩, record, ?_, ?_⟩, rfl, rfl⟩
  · rw [ItemTrace.advanced_eq (.inl rfl)]
    exact moved
  · exact (Option.filter_eq_some_iff.mp moved).1
  -- a committed record that reconciles is what the gate looks for
  · obtain ⟨found, committed⟩ := Option.filter_eq_some_iff.mp moved
    rw [slots, if_pos rfl] at found
    obtain ⟨exported, made, rfl⟩ := Option.map_eq_some_iff.mp found
    obtain ⟨-, here⟩ := exportedForPromotion_held
      (claimed state.session result.url (contentHash crates result)) ready.held made
    exact settle_reconciles here (by simpa using committed)

/-- If every page the loop advanced has its record at the end, each promotion that committed
found it there. -/
theorem promotionBacked_of_committed {outputPath runId : String}
    {items : List (ScrapedContent × ItemEnv)}
    (texts : ∀ item ∈ items, Delimited crates (chunkOf crates item.1 item.2)) {state : ExportState}
    (ready : Ready state) (safe : EachItem crates outputPath runId (AppendBacked crates) state items)
    (committed : CommittedHaveRecords crates state.exporter
      (runItems crates outputPath runId state items).1.outputs
      (runItems crates outputPath runId state items).2) :
    EachItem crates outputPath runId (PromotionBacked crates) state items := by
  induction items generalizing state with
  | nil => trivial
  | cons item rest ih =>
    obtain ⟨result, env⟩ := item
    obtain ⟨append, safe⟩ := safe
    have text := texts (result, env) List.mem_cons_self
    have step := processSingleItem_kept outputPath runId ready text append
    have restTexts : ∀ item ∈ rest, Delimited crates (chunkOf crates item.1 item.2) :=
      fun item member => texts item (List.mem_cons_of_mem _ member)
    refine ⟨?_, ?_⟩
    · -- the record is there at the end, and no later item brings one of a page the gate turns away
      intro hash promotes
      obtain ⟨⟨record, moved, present⟩, gated, outputs, exporter⟩ :=
        promotes_advances outputPath runId env ready promotes
      simp only [runItems] at committed
      generalize processSingleItem crates outputPath runId state result env = taken at *
      split at committed
      next =>
        obtain ⟨hash', hashed, held⟩ := committed _ List.mem_cons_self record moved
        rw [present] at hashed
        cases hashed
        rwa [outputs] at held
      next going =>
        obtain ⟨hash', hashed, held⟩ := committed _ List.mem_cons_self record moved
        rw [present] at hashed
        cases hashed
        rw [← exporter] at held
        have before := runItems_gated restTexts step.ready (safe going) gated held
        rwa [exporter, outputs] at before
    · intro going
      apply ih restTexts step.ready (safe going)
      intro trace member record moved
      simp only [runItems] at committed
      generalize processSingleItem crates outputPath runId state result env = taken at *
      rw [if_neg going] at committed
      obtain ⟨hash, hashed, held⟩ := committed trace (List.mem_cons_of_mem _ member) record moved
      exact ⟨hash, hashed, step.same.hasRecord.mp held⟩

theorem appendsBacked_jsonl {outputPath runId : String} {items : List (ScrapedContent × ItemEnv)}
    (texts : ∀ item ∈ items, Delimited crates (chunkOf crates item.1 item.2)) {state : ExportState}
    (ready : Ready state) (jsonl : state.exporter.IsJsonl) :
    EachItem crates outputPath runId (AppendBacked crates) state items := by
  induction items generalizing state with
  | nil => trivial
  | cons item rest ih =>
    have step := processSingleItem_kept outputPath runId ready (texts item List.mem_cons_self)
      fun _ => appendSafe_jsonl jsonl _ _
    exact ⟨fun _ => appendSafe_jsonl jsonl _ _, fun _ =>
      ih (fun item member => texts item (List.mem_cons_of_mem _ member)) step.ready (step.same.isJsonl jsonl)⟩

/-! ### The call -/

theorem loadOrInit_allValid (store : RecordStore) (io : Io) (file : StateFile) :
    AllValid (store.loadOrInit io file).1 := by
  have loaded : ∀ records, (store.load io file).1 = .ok records → AllValid records := by
    intro records returned
    cases file with
    | missing =>
      cases returned
      exact AllValid.empty
    | unparsable =>
      -- nothing is read from such a file
      exfalso
      simp only [RecordStore.load, RecordStore.loadUnderLock] at returned
      split at returned
      · split at returned <;> cases returned
      · cases returned
    | envelope value =>
      -- the current version and the migrated one both pass the partition
      simp only [RecordStore.load, RecordStore.loadUnderLock] at returned
      split at returned
      · split at returned
        · cases returned
        · split at returned
          · split at returned
            · cases returned
            · cases returned
              exact allValid_partitionValid _
          · split at returned
            · unfold RecordStore.migrateV1 at returned
              split at returned
              · cases returned
              · dsimp only at returned
                split at returned
                · split at returned
                  · cases returned
                  · cases returned
                    exact allValid_partitionValid _
                · cases returned
            · cases returned
      · cases returned
  unfold RecordStore.loadOrInit
  split
  next returned => exact loaded _ (by rw [returned])
  next => exact AllValid.empty

theorem openState_ready (crates : ExportCrates) (ctx : Option ResumeContext) (store : RecordStore)
    (format : ExportFormat) (load : Io) (file : StateFile) (outputs : Outputs) :
    Ready (openState crates ctx store format load file outputs).1 := by
  refine ⟨?_, ?_⟩
  · have fresh : (createExporter outputs format).Fits outputs := by
      cases format with
      | jsonl => nofun
      | vector => trivial
      | auto =>
        unfold createExporter
        dsimp only
        split
        · nofun
        · split
          · trivial
          · nofun
    exact fresh
  · intro key record found
    cases ctx with
    | none =>
      have absent : (∅ : DomainRecords)[key]? = some record := found
      simp at absent
    | some ctx => exact held_of_valid (loadOrInit_allValid store load file key record found)

namespace SameContent

open PlainCrates

def first : ScrapedContent := page "https://example.com/a" "a"

def second : ScrapedContent := page "https://example.com/b" "a"

def pages : List ScrapedContent := [first, second]

def firstLine : Bytes :=
  serializeLine (printing pages) (DocumentChunk.fromScrapedContent (printing pages) first stamp)

/-- A run with the resume flag over an empty store. -/
def run (results : List ScrapedContent) (output : Option Bytes) : Except ExporterError CallResult :=
  processResults (printing pages) "export.jsonl" (some ⟨"run", true⟩) ⟨"example.com"⟩ .jsonl
    { fallbackRunId := "fallback" } (results.map fun result => (result, itemEnv 1)) .missing
    ⟨output, none⟩

/-- The page, its way and the hash it was committed with. -/
def summary (call : CallResult) : List (String × Route × Option String) :=
  call.traces.map fun trace => (trace.url, trace.route, trace.advanced.bind RawRecord.contentHash)

theorem pages_delimited {scraped : ScrapedContent} (listed : scraped ∈ pages) :
    Delimited (printing pages) (DocumentChunk.fromScrapedContent (printing pages) scraped stamp) where
  writable := writable_printing (by decide +kernel) (by decide +kernel) listed
  unmarked := by
    have all : ∀ scraped ∈ pages, ¬ documentsMarker <:+: serializeDocument (printing pages)
        (DocumentChunk.fromScrapedContent (printing pages) scraped stamp) := by
      decide +kernel
    exact all scraped listed

theorem firstLine_text : JsonText (printing pages)
    (jsonlValue (printing pages) (DocumentChunk.fromScrapedContent (printing pages) first stamp)) :=
  (pages_delimited List.mem_cons_self).writable.jsonl

theorem durable_first : durableLines (some (firstLine ++ [newline])) = [firstLine ++ [newline]] := by
  have flat : newline ∉ firstLine := firstLine_text.newline_notMem
  rw [durableLines, outputBytes, Option.getD_some, terminatedPrefix_of_clean
    (clean_of_terminated (.inr ⟨firstLine, rfl⟩)), segments_line flat]

/-- The line of the first page stands for its content, and so for the second page. -/
theorem opened_first : openState (printing pages) (some ⟨"run", true⟩) ⟨"example.com"⟩ .jsonl {} .missing
    ⟨some (firstLine ++ [newline]), none⟩ =
      (⟨{ ctx := some ⟨"run", true⟩
          records := ∅
          hashIndex := JsonlChecksumIndex.empty.hashes.insert (contentHash (printing pages) first)
          driven := []
          skippedNonUtf8 := 0 },
        .jsonl .unopened, ⟨some (firstLine ++ [newline]), none⟩⟩, .missing) := by
  have filled : firstLine ≠ [] := by decide
  exact openState_serializeLine firstLine_text filled ⟨"run", true⟩ rfl

/-- Both pages pass the gate on the strength of that line. -/
theorem run_promoted {result : ScrapedContent} (listed : result ∈ pages) :
    ∃ call, run [result] (some (firstLine ++ [newline])) = .ok call ∧
      summary call = [(result.url, .promoted, some (contentHash (printing pages) result))] ∧
      call.outputs.jsonl = some (firstLine ++ [newline]) := by
  have evaluated : (run [result] (some (firstLine ++ [newline]))).toOption.map
      (fun call => (summary call, call.outputs.jsonl)) =
      some ([(result.url, .promoted, some (contentHash (printing pages) result))],
        some (firstLine ++ [newline])) := by
    have ran := @processResults_of_opened (printing pages) "export.jsonl" ⟨"example.com"⟩ .jsonl
      { fallbackRunId := "fallback" } .missing _ _ [(result, itemEnv 1)] _ _ rfl opened_first
    have seen := congrArg (Option.map fun (found : List ItemTrace × Outputs) =>
      (found.1.map (fun trace => (trace.url, trace.route, trace.advanced.bind RawRecord.contentHash)),
        found.2.jsonl)) ran
    rw [Option.map_map] at seen
    refine seen.trans ?_
    rcases List.mem_cons.mp listed with rfl | second
    · decide +kernel
    · rw [List.mem_singleton.mp second]
      decide +kernel
  cases ran : run [result] (some (firstLine ++ [newline])) with
  | error e =>
    rw [ran] at evaluated
    cases evaluated
  | ok call =>
    rw [ran] at evaluated
    exact ⟨call, rfl, Prod.mk.inj (Option.some.inj evaluated)⟩

end SameContent

end Webfang.Export
