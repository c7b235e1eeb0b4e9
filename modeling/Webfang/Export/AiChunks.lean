import Webfang.Export.CommittedLines

/-!
# Processing cleaned chunks

`process_results_with_chunks` of `application/export_factory.rs`: the gate and the plan over all
chunks, one batch export, then the commit of the outcomes, chunk after chunk. The chunks of a page
have one URL, so they share one record. The batch export enters by its result, as no record depends
on what it wrote.
-/
namespace Webfang.Export

open Library Domain CommitSession

inductive AiChunkOutcome where
  | notDriven
  | exported (contentHash : String)
  | duplicate
  | invalid (error : String)
  deriving DecidableEq, Repr

/-- A chunk with its digest and what the resume gate decided before any export. -/
structure GatedChunk where
  chunk : DocumentChunk
  contentHash : String
  decision : ItemDecision

structure PlannedChunk extends GatedChunk where
  outcome : AiChunkOutcome

structure AiEnv where
  now : Int64
  /-- The cancellation token is set when the chunk is done. -/
  cancelled : Bool := false
  ios : Nat → Io := fun _ => {}

structure AiCallEnv where
  directoryError : Option String := none
  /-- What `export_batch` returns. -/
  batch : Except ExporterError Unit := .ok ()
  steps : Nat → AiEnv
  finalPersist : Io := {}
  fallbackRunId : String

structure AiTrace where
  planned : PlannedChunk
  saves : List Save

structure AiCallResult where
  processedUrls : List String
  traces : List AiTrace
  records : DomainRecords
  file : StateFile

def GatedChunk.driven (gated : GatedChunk) : Bool := gated.decision == .driveAndCommit

/-- Claimed pairs are compared by their texts. -/
theorem lawful_identity : LawfulBEq (String × String) := inferInstance

attribute [local instance] lawful_identity

section Definitions

variable (crates : ExportCrates) (outputPath runId : String)

def gateChunk (session : CommitSession) (chunk : DocumentChunk) : GatedChunk where
  chunk
  contentHash := crates.sha256Hex chunk.content
  decision := session.decide crates.urls chunk.url (some (crates.sha256Hex chunk.content))

/-- The outcome of one chunk after the pairs `claimed` by the chunks before it. Validation comes
before the claim, so an invalid chunk claims nothing. -/
def planAiChunk (claimed : List (String × String)) (gated : GatedChunk) : AiChunkOutcome :=
  if gated.driven then
    match gated.chunk.validate crates with
    | .error e => .invalid e.text
    | .ok _ =>
      if (gated.chunk.url, gated.contentHash) ∈ claimed then .duplicate
      else .exported gated.contentHash
  else .notDriven

def GatedChunk.identity (gated : GatedChunk) : String × String := (gated.chunk.url, gated.contentHash)

def planAiChunks (claimed : List (String × String)) : List GatedChunk → List PlannedChunk
  | [] => []
  | gated :: rest =>
    match planAiChunk crates claimed gated with
    | .exported hash => ⟨gated, .exported hash⟩ :: planAiChunks (gated.identity :: claimed) rest
    | outcome => ⟨gated, outcome⟩ :: planAiChunks claimed rest

/-- The chunks the batch export writes. -/
def validatedChunks (planned : List PlannedChunk) : List DocumentChunk :=
  planned.filterMap fun planned =>
    match planned.outcome with
    | .exported _ => some planned.chunk
    | _ => none

def commitAiOutcome (session : CommitSession) (planned : PlannedChunk) (now : Int64) :
    CommitSession × List Save :=
  match planned.decision with
  | .alreadyCommitted => (session, [])
  | .promoteFromFlushProof =>
    session.promoteFromFlushProof crates.urls planned.chunk.url outputPath planned.contentHash now
  | .driveAndCommit =>
    match planned.outcome with
    | .exported hash => session.commitItem crates.urls planned.chunk.url hash outputPath runId now
    | .invalid error =>
      let e := ExporterError.invalidConfig error
      session.failItem crates.urls planned.chunk.url (classifyExportFailure e) e.text now
    | .duplicate | .notDriven => (session, [])

def commitAiOutcomes : (Nat → AiEnv) → CommitSession → List PlannedChunk →
    CommitSession × List AiTrace
  | _, session, [] => (session, [])
  | steps, session, planned :: rest =>
    let env := steps 0
    let (next, saves) := commitAiOutcome crates outputPath runId session planned env.now
    -- a chunk that was committed before goes on without a look at the token
    if planned.decision ≠ .alreadyCommitted ∧ next.ctx.isSome ∧ env.cancelled then
      (next, [⟨planned, saves⟩])
    else
      let (final, traces) := commitAiOutcomes (fun n => steps (n + 1)) next rest
      (final, ⟨planned, saves⟩ :: traces)

def persistAiTraces (store : RecordStore) : (Nat → AiEnv) → List AiTrace → StateFile → StateFile
  | _, [], file => file
  | steps, trace :: rest, file =>
    persistAiTraces store (fun n => steps (n + 1)) rest
      (persistAll store (steps 0).ios trace.saves file)

/-- The plan of a call: every decision is taken on the session as it was opened. -/
def planCall (session : CommitSession) (chunks : List DocumentChunk) : List PlannedChunk :=
  planAiChunks crates [] (chunks.map (gateChunk crates session))

def processResultsWithChunks (ctx : Option ResumeContext) (store : RecordStore) (load : Io)
    (file : StateFile) (output : Option Bytes) (env : AiCallEnv) (chunks : List DocumentChunk) :
    Except ExporterError AiCallResult :=
  match env.directoryError with
  | some reason => .error (.directoryCreation reason)
  | none =>
    let (session, file) := openSession crates.fromStr ctx store load file output
    let runId := ctx.elim env.fallbackRunId ResumeContext.runId
    let planned := planCall crates session chunks
    match if (validatedChunks planned).isEmpty then .ok () else env.batch with
    | .error e => .error e
    | .ok () =>
      let (final, traces) := commitAiOutcomes crates outputPath runId env.steps session planned
      let file := persistAiTraces store env.steps traces file
      .ok {
        processedUrls := chunks.map DocumentChunk.url
        traces
        records := final.records
        file :=
          match ctx with
          | none => file
          | some _ => (mergePersist final.records store env.finalPersist file).2 }

end Definitions

variable {crates : ExportCrates} {outputPath runId : String}

/-! ### The standing of a record

What the operations read of a record and what they make of it. -/

/-- `clean` is the absence of an error; `named` says that a fresh record can take its names. -/
structure Standing where
  status : PageStatus
  attempts : UInt32
  clean : Bool
  named : Bool
  deriving DecidableEq

def standing (record : RawRecord) : Standing where
  status := record.status
  attempts := record.attempts
  clean := record.lastError.isNone
  named := !Text.isBlank record.canonicalUrl

/-- The standing after the commit point, for a flushed record with one attempt counted. -/
def Standing.flush (s : Standing) : Standing :=
  { s with
    status := if s.attempts + 1 = 0 then .exported else .committed
    attempts := s.attempts + 1
    clean := true }

/-- What one chunk asks of the record under its key. -/
inductive ChunkMove where
  | commit
  | fail
  | promote
  deriving DecidableEq

namespace ChunkMove

/-- The standing of a page that was committed from a fresh record. -/
def fresh : Standing := ⟨.committed, 1, true, true⟩

/-- `addressed` says that the URL and its key are no blank texts. -/
def apply (addressed : Bool) (slot : Option Standing) : ChunkMove → Option Standing
  | .commit =>
    match slot with
    | some s => if s.status.isTerminal then some fresh else some s.flush
    | none => some fresh
  | .fail =>
    match slot with
    | some s => some { s with attempts := s.attempts + 1, clean := false }
    | none => if addressed then some ⟨.discovered, 1, false, true⟩ else none
  | .promote =>
    match slot with
    | some s =>
      match s.status with
      | .exported => some { s with status := if s.clean ∧ s.attempts ≠ 0 then .committed else .exported }
      | .committed => if s.named then some fresh else none
      | _ => some s.flush
    | none => if addressed then some fresh else none

end ChunkMove

def PlannedChunk.move (planned : PlannedChunk) : Option ChunkMove :=
  match planned.decision with
  | .alreadyCommitted => none
  | .promoteFromFlushProof => some .promote
  | .driveAndCommit =>
    match planned.outcome with
    | .exported _ => some .commit
    | .invalid _ => some .fail
    | .duplicate | .notDriven => none

/-- What the crates do with the URL of a chunk: a blank text does not parse, and no other text has a
blank key. -/
structure Addressable (urls : UrlCrates) (url : String) : Prop where
  parsed : (urls.parse url).isSome → Text.isBlank url = false
  key : Text.isBlank url = false → Text.isBlank (urls.canonicalKey url) = false

theorem canonicalKey_of_blank {urls : UrlCrates} {url : String} (blank : Text.isBlank url = true) :
    urls.canonicalKey url = url := by
  have relative : Text.contains url "://" = false := by
    rw [Text.contains, decide_eq_false_iff_not]
    intro separator
    have colon : ':' ∈ url.toList := separator.subset (by decide)
    rw [Text.isBlank, List.all_eq_true] at blank
    exact absurd (blank ':' colon) (by decide)
  rw [UrlCrates.canonicalKey, UrlCrates.normalizeUrl, relative]
  rfl

theorem Addressable.blank {urls : UrlCrates} {url : String} (names : Addressable urls url) :
    Text.isBlank (urls.canonicalKey url) = Text.isBlank url := by
  cases blank : Text.isBlank url with
  | true => rw [canonicalKey_of_blank blank, blank]
  | false => exact names.key blank

theorem freshDiscovered_addressed {urls : UrlCrates} {url : String} (names : Addressable urls url)
    (runId : String) (now : Int64) :
    freshDiscovered url (urls.canonicalKey url) runId now =
      if Text.isBlank (urls.canonicalKey url) then none
      else some ⟨{
        url, canonicalUrl := urls.canonicalKey url, runId, updatedAt := now
        contentHash := none
        attempts := 0
        status := .discovered
        lastError := none
        outputLocation := none }⟩ := by
  rw [freshDiscovered_eq, names.blank, Bool.or_self]

/-! ### One move on the record under a key -/

section Moves

variable {session : CommitSession} {url contentHash : String} {now : Int64}

/-- The flushed record of an open record, after the commit point. -/
theorem standing_flushed {flushed : RawRecord} (held : Held flushed) (here : flushed.status = .exported)
    (clean : flushed.lastError = none) :
    standing (settle flushed) =
      { standing flushed with status := if flushed.attempts = 0 then .exported else .committed } := by
  rw [settle_eq held here]
  by_cases wrapped : flushed.attempts = 0
  · rw [if_neg (fun ready => ready.2 wrapped), if_pos wrapped]
    simp [standing, here]
  · rw [if_pos ⟨clean, wrapped⟩, if_neg wrapped]
    rfl

theorem standing_flushed_fresh {flushed : RawRecord} (held : Held flushed)
    (here : flushed.status = .exported) (clean : flushed.lastError = none)
    (first : flushed.attempts = 1) (named : Text.isBlank flushed.canonicalUrl = false) :
    standing (settle flushed) = ChunkMove.fresh := by
  rw [standing_flushed held here clean]
  simp [standing, ChunkMove.fresh, first, clean, named]

theorem standing_commit (held : AllHeld session.records) (names : Addressable crates.urls url)
    (addressed : Text.isBlank (crates.urls.canonicalKey url) = false) :
    (((exportedForCommit session url (crates.urls.canonicalKey url) contentHash outputPath runId now).map
        fun exported => settle exported.record).map standing) =
      ChunkMove.apply true (session.records[crates.urls.canonicalKey url]?.map standing) .commit := by
  have created := freshDiscovered_addressed names runId now
  rw [addressed, if_neg Bool.false_ne_true] at created
  have made : ∀ exported, exportedForCommit session url (crates.urls.canonicalKey url) contentHash
      outputPath runId now = some exported →
        Held exported.record ∧ exported.record.status = .exported ∧
          exported.record.contentHash = some contentHash :=
    fun _ => exportedForCommit_spec held
  unfold exportedForCommit at made ⊢
  unfold processedForCommit at made ⊢
  cases found : session.records[crates.urls.canonicalKey url]? with
  | none =>
    rw [found, created] at made
    rw [created]
    obtain ⟨flushedHeld, here, -⟩ := made _ rfl
    exact congrArg some (standing_flushed_fresh flushedHeld here rfl rfl addressed)
  | some record =>
    rw [found] at made
    cases terminal : record.status.isTerminal with
    | true =>
      -- a terminal record gives way to a fresh one
      have ended : (some record).filter (fun record => !record.status.isTerminal) = none := by
        simp [Option.filter, terminal]
      rw [ended, created] at made
      rw [ended, created]
      obtain ⟨flushedHeld, here, -⟩ := made _ rfl
      simp only [Option.map_some, ChunkMove.apply, standing.eq_def record, terminal, if_true]
      exact congrArg some (standing_flushed_fresh flushedHeld here rfl rfl addressed)
    | false =>
      have open_ : (some record).filter (fun record => !record.status.isTerminal) = some record := by
        simp [Option.filter, terminal]
      simp only [open_, driveToProcessed_open terminal] at made ⊢
      obtain ⟨flushedHeld, here, -⟩ := made _ rfl
      simp only [Option.map_some, ChunkMove.apply, standing.eq_def record, terminal,
        Bool.false_eq_true, if_false]
      exact congrArg some (standing_flushed flushedHeld here rfl)

theorem standing_fail (names : Addressable crates.urls url) (errorClass : ErrorClass) (message : String) :
    (((session.entryOrDiscovered url (crates.urls.canonicalKey url) runId now).map fun record =>
        failedRecord record errorClass message now).map standing) =
      ChunkMove.apply (!Text.isBlank (crates.urls.canonicalKey url))
        (session.records[crates.urls.canonicalKey url]?.map standing) .fail := by
  unfold entryOrDiscovered
  cases session.records[crates.urls.canonicalKey url]? with
  | some record => rfl
  | none =>
    rw [freshDiscovered_addressed names]
    cases addressed : Text.isBlank (crates.urls.canonicalKey url) with
    | true => rfl
    | false => simp [ChunkMove.apply, standing, failedRecord, addressed]

theorem standing_flushOpen {record : RawRecord} (identity : isMeaninglessIdentity record.url = false) :
    standing (settle (flushOpen record contentHash outputPath now)) = (standing record).flush :=
  standing_flushed (flushOpen_held identity _ _ _) rfl rfl

theorem standing_flushOpen_fresh {key : String} {discovered : Stateful .discovered}
    (created : freshDiscovered url key runId now = some discovered) (named : Text.isBlank key = false) :
    standing (settle (flushOpen discovered.record contentHash outputPath now)) = ChunkMove.fresh := by
  obtain ⟨identity, made⟩ := freshDiscovered_eq_some created
  rw [standing_flushOpen (by rw [made]; exact identity), made]
  simp [standing, Standing.flush, ChunkMove.fresh, named]

theorem standing_promote (held : AllHeld session.records) (names : Addressable crates.urls url) :
    (((exportedForPromotion session url (crates.urls.canonicalKey url) runId outputPath contentHash now).map
        fun exported => settle exported.record).map standing) =
      ChunkMove.apply (!Text.isBlank (crates.urls.canonicalKey url))
        (session.records[crates.urls.canonicalKey url]?.map standing) .promote := by
  unfold exportedForPromotion entryOrDiscovered
  cases found : session.records[crates.urls.canonicalKey url]? with
  | none =>
    have created := freshDiscovered_addressed names runId now
    cases addressed : Text.isBlank (crates.urls.canonicalKey url) with
    | true =>
      rw [addressed, if_pos rfl] at created
      rw [created]
      rfl
    | false =>
      rw [addressed, if_neg Bool.false_ne_true] at created
      rw [created, Option.map_some, Option.bind_some,
        driveToExportFlushed_eq (held_of_valid (freshDiscovered_valid created).1)]
      exact congrArg some (standing_flushOpen_fresh created addressed)
  | some record =>
    have recordHeld := held _ record found
    rw [Option.bind_some, driveToExportFlushed_eq recordHeld]
    cases here : record.status with
    | exported =>
      simp only [Option.map_some, ChunkMove.apply, standing.eq_def record, here]
      rw [settle_eq recordHeld here]
      by_cases ready : record.lastError = none ∧ record.attempts ≠ 0
      · rw [if_pos ready]
        simp [standing, ready]
      · rw [if_neg ready]
        simpa [standing, here] using ready
    | committed =>
      have identity : Text.isBlank record.url = false := recordHeld.identity
      simp only [Option.map_some, ChunkMove.apply, standing.eq_def record, here]
      cases named : Text.isBlank record.canonicalUrl with
      | true =>
        rw [freshDiscovered_eq, named, Bool.or_true]
        rfl
      | false =>
        cases created : freshDiscovered record.url record.canonicalUrl runId now with
        | none =>
          rw [freshDiscovered_eq, identity, named] at created
          cases created
        | some discovered => exact congrArg some (standing_flushOpen_fresh created named)
    | _ =>
      simp only [Option.map_some, ChunkMove.apply, standing.eq_def record, here]
      refine congrArg some ((standing_flushOpen recordHeld.identity).trans ?_)
      simp [standing, here]

end Moves

/-! ### All chunks -/

def slotStanding (records : DomainRecords) (key : String) : Option Standing := records[key]?.map standing

def PlannedChunk.moveAt (urls : UrlCrates) (key : String) (planned : PlannedChunk) : Option ChunkMove :=
  if urls.canonicalKey planned.chunk.url = key then planned.move else none

def movesAt (urls : UrlCrates) (key : String) (planned : List PlannedChunk) : List ChunkMove :=
  planned.filterMap (PlannedChunk.moveAt urls key)

def applyMoves (key : String) (slot : Option Standing) (moves : List ChunkMove) : Option Standing :=
  moves.foldl (ChunkMove.apply (!Text.isBlank key)) slot

/-- The URL of a planned chunk has a key, and an exported chunk one that is no blank text. -/
structure PlannedChunk.Placed (urls : UrlCrates) (planned : PlannedChunk) : Prop where
  names : Addressable urls planned.chunk.url
  exported : planned.move = some .commit →
    Text.isBlank (urls.canonicalKey planned.chunk.url) = false

variable (outputPath runId) in
/-- One chunk applies its move to the record under its key and leaves the others alone. -/
theorem commitAiOutcome_spec {session : CommitSession} {planned : PlannedChunk} {ctx : ResumeContext}
    (held : AllHeld session.records) (context : session.ctx = some ctx)
    (placed : planned.Placed crates.urls) (now : Int64) :
    AllHeld (commitAiOutcome crates outputPath runId session planned now).1.records ∧
      (commitAiOutcome crates outputPath runId session planned now).1.ctx = some ctx ∧
      ∀ key, slotStanding (commitAiOutcome crates outputPath runId session planned now).1.records key =
        applyMoves key (slotStanding session.records key) (movesAt crates.urls key [planned]) := by
  have stays : AllHeld session.records ∧ session.ctx = some ctx ∧ (planned.move = none →
      ∀ key, slotStanding session.records key =
        applyMoves key (slotStanding session.records key) (movesAt crates.urls key [planned])) := by
    refine ⟨held, context, fun idle key => ?_⟩
    have none_ : planned.moveAt crates.urls key = none := by
      rw [PlannedChunk.moveAt, idle, ite_self]
    simp [movesAt, none_, applyMoves]
  -- an operation that rewrites the slot of the chunk's key by its move
  have rewrites {after : CommitSession} {slot : Option RawRecord} {move : ChunkMove}
      (moved : planned.move = some move)
      (spec : ∀ k, after.records[k]? =
        if crates.urls.canonicalKey planned.chunk.url = k then slot else session.records[k]?)
      (stood : slot.map standing = ChunkMove.apply
        (!Text.isBlank (crates.urls.canonicalKey planned.chunk.url))
        (session.records[crates.urls.canonicalKey planned.chunk.url]?.map standing) move) (key : String) :
      slotStanding after.records key =
        applyMoves key (slotStanding session.records key) (movesAt crates.urls key [planned]) := by
    rw [slotStanding, spec key]
    by_cases here : crates.urls.canonicalKey planned.chunk.url = key
    · subst here
      simp [movesAt, PlannedChunk.moveAt, moved, applyMoves, stood, slotStanding]
    · simp [movesAt, PlannedChunk.moveAt, here, applyMoves, slotStanding]
  unfold commitAiOutcome
  split
  next decided =>
    refine ⟨stays.1, stays.2.1, stays.2.2 ?_⟩
    simp [PlannedChunk.move, decided]
  next decided =>
    obtain ⟨same, spec⟩ := promoteFromFlushProof_spec crates.urls session context planned.chunk.url
      outputPath planned.contentHash now
    exact ⟨promoteFromFlushProof_held crates.urls held context _ _ _ _, same.ctx.trans context,
      rewrites (by rw [PlannedChunk.move, decided]) spec (standing_promote held placed.names)⟩
  next decided =>
    split
    next hash made =>
      have moved : planned.move = some .commit := by rw [PlannedChunk.move, decided, made]
      obtain ⟨same, spec⟩ := commitItem_spec crates.urls session planned.chunk.url hash outputPath runId now
      refine ⟨commitItem_held held _ _ _ _ _, same.ctx.trans context, rewrites moved spec ?_⟩
      rw [standing_commit held placed.names (placed.exported moved), placed.exported moved]
      rfl
    next error made =>
      obtain ⟨same, spec⟩ := failItem_spec crates.urls session planned.chunk.url
        (classifyExportFailure (.invalidConfig error)) (ExporterError.invalidConfig error).text now
      rw [context] at spec
      exact ⟨failItem_held held _ _ _ _, same.ctx.trans context,
        rewrites (by rw [PlannedChunk.move, decided, made]) spec (standing_fail placed.names _ _)⟩
    next made =>
      refine ⟨stays.1, stays.2.1, stays.2.2 ?_⟩
      simp [PlannedChunk.move, decided, made]
    next made =>
      refine ⟨stays.1, stays.2.1, stays.2.2 ?_⟩
      simp [PlannedChunk.move, decided, made]

theorem applyMoves_append (key : String) (slot : Option Standing) (before after : List ChunkMove) :
    applyMoves key slot (before ++ after) = applyMoves key (applyMoves key slot before) after :=
  List.foldl_append

theorem movesAt_cons (urls : UrlCrates) (key : String) (planned : PlannedChunk) (rest : List PlannedChunk) :
    movesAt urls key (planned :: rest) = movesAt urls key [planned] ++ movesAt urls key rest := by
  rw [movesAt, movesAt, movesAt, ← List.filterMap_append, List.singleton_append]

variable (outputPath runId) in
/-- A run applies the moves of the chunks it came to, in their order; without a cancellation it comes
to all of them. -/
theorem commitAiOutcomes_spec {ctx : ResumeContext} {planned : List PlannedChunk}
    (placed : ∀ p ∈ planned, p.Placed crates.urls) {session : CommitSession}
    (held : AllHeld session.records) (context : session.ctx = some ctx) (steps : Nat → AiEnv) :
    ((commitAiOutcomes crates outputPath runId steps session planned).2.map AiTrace.planned <+: planned) ∧
      ((∀ n, (steps n).cancelled = false) →
        (commitAiOutcomes crates outputPath runId steps session planned).2.map AiTrace.planned = planned) ∧
      ∀ key,
        slotStanding (commitAiOutcomes crates outputPath runId steps session planned).1.records key =
          applyMoves key (slotStanding session.records key) (movesAt crates.urls key
            ((commitAiOutcomes crates outputPath runId steps session planned).2.map AiTrace.planned)) := by
  induction planned generalizing session steps with
  | nil => exact ⟨List.prefix_rfl, fun _ => rfl, fun _ => rfl⟩
  | cons p rest ih =>
    obtain ⟨nextHeld, nextContext, stood⟩ := commitAiOutcome_spec outputPath runId held context
      (placed p List.mem_cons_self) (steps 0).now
    rw [commitAiOutcomes]
    generalize commitAiOutcome crates outputPath runId session p (steps 0).now = outcome at *
    obtain ⟨next, saves⟩ := outcome
    dsimp only at nextHeld nextContext stood ⊢
    split
    next stopped =>
      refine ⟨⟨rest, rfl⟩, fun going => ?_, stood⟩
      rw [going 0] at stopped
      exact absurd stopped.2.2 Bool.false_ne_true
    next =>
      obtain ⟨seen, whole, ran⟩ := ih (fun q member => placed q (List.mem_cons_of_mem _ member))
        nextHeld nextContext fun n => steps (n + 1)
      refine ⟨?_, fun going => ?_, fun key => ?_⟩
      · exact List.prefix_cons_inj p |>.mpr seen
      · exact congrArg (p :: ·) (whole fun n => going (n + 1))
      · rw [ran key, stood key, ← applyMoves_append, ← movesAt_cons]
        rfl

end Webfang.Export
