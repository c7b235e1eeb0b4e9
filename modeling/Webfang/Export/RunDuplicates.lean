import Webfang.Export.CommittedLines
import Webfang.Library.Dedup

/-!
# Duplicates within a run

Without resume every item claims its URL and content hash before it is validated and appended
(`process_single_item`). The first item of a pair holds the claim also where it comes to nothing.
-/
namespace Webfang.Export

open Library Domain CommitSession

variable (crates : ExportCrates) (outputPath runId : String)

/-- An item with the state in front of it. -/
structure Visit where
  state : ExportState
  result : ScrapedContent
  env : ItemEnv

/-- The items that the loop comes to. -/
def visits : ExportState → List (ScrapedContent × ItemEnv) → List Visit
  | _, [] => []
  | state, (result, env) :: rest =>
    let step := processSingleItem crates outputPath runId state result env
    ⟨state, result, env⟩ :: if step.outcome = .cancelled then [] else visits step.state rest

namespace Visit

def step (visit : Visit) : ItemStep :=
  processSingleItem crates outputPath runId visit.state visit.result visit.env

/-- What the run deduplicates by. -/
def key (visit : Visit) : String × String := (visit.result.url, contentHash crates visit.result)

def hasPair (url content : String) (visit : Visit) : Bool :=
  visit.result.url = url && visit.result.content = content

def validates (visit : Visit) : Bool := ((chunkOf crates visit.result visit.env).validate crates).isOk

/-- The item validates, and its append would succeed. -/
def succeeds (visit : Visit) : Bool :=
  match (chunkOf crates visit.result visit.env).validate crates with
  | .ok validated =>
    (visit.state.exporter.export crates outputPath visit.env visit.state.outputs validated).1.isOk
  | .error _ => false

def appended (visit : Visit) : Bool := (visit.step crates outputPath runId).route = .exported

def claimedState (visit : Visit) : ExportState :=
  { visit.state with
    session := claimed visit.state.session visit.result.url (contentHash crates visit.result) }

def skippedAsDuplicate (visit : Visit) : Prop := (visit.step crates outputPath runId).route = .duplicate

end Visit

/-- No record is consulted: there is no resume context, or it does not resume. -/
def NoResume (session : CommitSession) : Prop := ∀ ctx, session.ctx = some ctx → ctx.resume = false

variable {crates outputPath runId}

theorem visits_cons (state : ExportState) (item : ScrapedContent × ItemEnv)
    (rest : List (ScrapedContent × ItemEnv)) :
    visits crates outputPath runId state (item :: rest) = ⟨state, item.1, item.2⟩ ::
      if (Visit.step crates outputPath runId ⟨state, item.1, item.2⟩).outcome = .cancelled then []
      else visits crates outputPath runId (Visit.step crates outputPath runId ⟨state, item.1, item.2⟩).state
        rest := rfl

theorem runItems_cons (state : ExportState) (item : ScrapedContent × ItemEnv)
    (rest : List (ScrapedContent × ItemEnv)) :
    runItems crates outputPath runId state (item :: rest) =
      if (Visit.step crates outputPath runId ⟨state, item.1, item.2⟩).outcome = .cancelled then
        ((Visit.step crates outputPath runId ⟨state, item.1, item.2⟩).state,
          [(Visit.step crates outputPath runId ⟨state, item.1, item.2⟩).trace crates item.1.url])
      else
        ((runItems crates outputPath runId
            (Visit.step crates outputPath runId ⟨state, item.1, item.2⟩).state rest).1,
          (Visit.step crates outputPath runId ⟨state, item.1, item.2⟩).trace crates item.1.url ::
            (runItems crates outputPath runId
              (Visit.step crates outputPath runId ⟨state, item.1, item.2⟩).state rest).2) := rfl

variable {state : ExportState} {result : ScrapedContent} {env : ItemEnv}
  {items : List (ScrapedContent × ItemEnv)}

theorem runItems_traces (items : List (ScrapedContent × ItemEnv)) (state : ExportState) :
    (runItems crates outputPath runId state items).2 =
      (visits crates outputPath runId state items).map fun visit =>
        (visit.step crates outputPath runId).trace crates visit.result.url := by
  induction items generalizing state with
  | nil => rfl
  | cons item rest ih =>
    rcases item with ⟨result, env⟩
    rw [runItems, visits]
    dsimp only
    split
    next => rfl
    next =>
      rw [List.map_cons, ← ih]
      rfl

/-! ### One item -/

theorem decide_of_noResume (urls : UrlCrates) {session : CommitSession} (noResume : NoResume session)
    (url : String) (hash : Option String) : session.decide urls url hash = .driveAndCommit := by
  unfold CommitSession.decide
  cases context : session.ctx with
  | none => rfl
  | some ctx => simp [noResume ctx context]

theorem driveItem_appends (outputPath runId : String) (state : ExportState) (result : ScrapedContent)
    (env : ItemEnv) :
    SameRun state.session (driveItem crates outputPath runId state result env).state.session ∧
      (driveItem crates outputPath runId state result env).route ≠ .duplicate ∧
      ((driveItem crates outputPath runId state result env).route = .exported ↔
        Visit.succeeds crates outputPath ⟨state, result, env⟩ = true) := by
  unfold driveItem Visit.succeeds
  dsimp only
  cases (chunkOf crates result env).validate crates with
  | error e => exact ⟨(failItem_spec ..).1, nofun, by simp⟩
  | ok validated =>
    dsimp only
    rcases state.exporter.export crates outputPath env state.outputs validated with
      ⟨answer, exporter, outputs⟩
    cases answer with
    | error e => exact ⟨(failItem_spec ..).1, nofun, by simp [Except.isOk, Except.toBool]⟩
    | ok => exact ⟨(commitItem_spec ..).1, nofun, by simp [Except.isOk, Except.toBool]⟩

/-- Without resume the first item of its key is driven. -/
theorem step_taken {visit : Visit} (noResume : NoResume visit.state.session)
    (fresh : visit.key crates ∉ visit.state.session.driven) :
    visit.step crates outputPath runId =
      driveItem crates outputPath runId (visit.claimedState crates) visit.result visit.env := by
  rw [Visit.step, processSingleItem_fresh fresh]
  dsimp only
  rw [decide_of_noResume crates.urls noResume]
  rfl

variable (outputPath runId) in
/-- The first item of its key claims it, and appends exactly where it succeeds. -/
theorem step_fresh {visit : Visit} (noResume : NoResume visit.state.session)
    (fresh : visit.key crates ∉ visit.state.session.driven) :
    (visit.step crates outputPath runId).state.session.ctx = visit.state.session.ctx ∧
      (visit.step crates outputPath runId).state.session.driven =
        visit.key crates :: visit.state.session.driven ∧
      ¬ visit.skippedAsDuplicate crates outputPath runId ∧
      (visit.appended crates outputPath runId = true ↔ visit.succeeds crates outputPath = true) := by
  rcases driveItem_appends outputPath runId (visit.claimedState crates) visit.result visit.env with
    ⟨same, notDuplicate, appends⟩
  simp only [Visit.appended, Visit.skippedAsDuplicate, step_taken noResume fresh, decide_eq_true_eq]
  exact ⟨same.ctx, same.driven, notDuplicate, appends⟩

variable (outputPath runId) in
theorem step_claimed {visit : Visit} (repeated : visit.key crates ∈ visit.state.session.driven) :
    (visit.step crates outputPath runId).state = visit.state ∧
      visit.skippedAsDuplicate crates outputPath runId ∧
      visit.appended crates outputPath runId = false := by
  have skipped : visit.step crates outputPath runId = ⟨visit.state, .skipped, .duplicate, []⟩ :=
    processSingleItem_duplicate repeated
  simp [Visit.skippedAsDuplicate, Visit.appended, skipped]

variable (crates outputPath runId) in
/-- A step adds the key of its item to the claims, if it is not there yet. -/
theorem step_driven (visit : Visit) (noResume : NoResume visit.state.session) (key : String × String) :
    NoResume (visit.step crates outputPath runId).state.session ∧
      (key ∈ (visit.step crates outputPath runId).state.session.driven ↔
        key ∈ visit.state.session.driven ∨ visit.key crates = key) := by
  by_cases repeated : visit.key crates ∈ visit.state.session.driven
  · rw [(step_claimed outputPath runId repeated).1]
    refine ⟨noResume, .inl, ?_⟩
    rintro (before | rfl)
    · exact before
    · exact repeated
  · rcases step_fresh outputPath runId noResume repeated with ⟨ctx, driven, -⟩
    rw [NoResume, ctx, driven, List.mem_cons]
    exact ⟨noResume, by tauto⟩

/-! ### A run -/

/-- The claims in front of an item are those of the items before it. -/
theorem visits_driven (noResume : NoResume state.session) {front back : List Visit} {visit : Visit}
    (split : visits crates outputPath runId state items = front ++ visit :: back) :
    NoResume visit.state.session ∧ ∀ key, key ∈ visit.state.session.driven ↔
      key ∈ state.session.driven ∨ ∃ other ∈ front, other.key crates = key := by
  induction items generalizing state front with
  | nil =>
    rw [visits] at split
    exact absurd split (by simp)
  | cons item rest ih =>
    rcases item with ⟨result, env⟩
    rw [visits] at split
    cases front with
    | nil =>
      rw [List.nil_append, List.cons.injEq] at split
      rw [← split.1]
      exact ⟨noResume, by simp⟩
    | cons first others =>
      rw [List.cons_append, List.cons.injEq] at split
      rcases split with ⟨rfl, split⟩
      have stepped := step_driven crates outputPath runId ⟨state, result, env⟩ noResume
      split_ifs at split with stopped
      · exact absurd split (by simp)
      · rcases ih (stepped ("", "")).1 split with ⟨still, claims⟩
        refine ⟨still, fun key => ?_⟩
        have added := (stepped key).2
        rw [claims, added, List.exists_mem_cons_iff, or_assoc]

theorem visits_claimsFirst (noResume : NoResume state.session) (unclaimed : state.session.driven = []) :
    ClaimsFirst (Visit.key crates) (Visit.succeeds crates outputPath)
      (Visit.appended crates outputPath runId) (Visit.skippedAsDuplicate crates outputPath runId)
      (visits crates outputPath runId state items) where
  again_iff front visit back split := by
    rcases visits_driven noResume split with ⟨still, claims⟩
    rw [unclaimed] at claims
    have here : visit.key crates ∈ visit.state.session.driven ↔ _ := claims (visit.key crates)
    rw [List.mem_nil_iff, false_or] at here
    rw [← here]
    refine ⟨fun skipped => ?_, fun repeated => (step_claimed outputPath runId repeated).2.1⟩
    by_contra fresh
    exact (step_fresh outputPath runId still fresh).2.2.1 skipped
  done_iff front visit back split := by
    rcases visits_driven noResume split with ⟨still, claims⟩
    rw [unclaimed] at claims
    have here : visit.key crates ∈ visit.state.session.driven ↔ _ := claims (visit.key crates)
    rw [List.mem_nil_iff, false_or] at here
    have new : (∀ other ∈ front, other.key crates ≠ visit.key crates) ↔
        visit.key crates ∉ visit.state.session.driven := by
      rw [here]
      simp
    rw [new]
    by_cases repeated : visit.key crates ∈ visit.state.session.driven
    · simp [(step_claimed outputPath runId repeated).2.2, repeated]
    · rw [(step_fresh outputPath runId still repeated).2.2.2]
      exact ⟨fun fine => ⟨repeated, fine⟩, And.right⟩

/-! ### The lines of a run -/

/-- A running JSONL exporter whose file it fits. -/
def Appends (exporter : Exporter) (outputs : Outputs) : Prop :=
  ∃ writer, exporter = .jsonl writer ∧ writer.Fits outputs.jsonl

/-- What a step may do to a JSONL file: add a line. -/
structure AddsLine (before : Option Bytes) (after : ExportState) (line : Bytes) (added : Prop) : Prop where
  appends : Appends after.exporter after.outputs
  lines : added ∧ durableLines after.outputs.jsonl = durableLines before ++ [line ++ [newline]] ∨
    ¬ added ∧ durableLines after.outputs.jsonl = durableLines before

theorem driveItem_lines (outputPath runId : String) (state : ExportState)
    (appends : Appends state.exporter state.outputs)
    (flat : newline ∉ serializeLine crates (chunkOf crates result env)) :
    AddsLine state.outputs.jsonl (driveItem crates outputPath runId state result env).state
      (serializeLine crates (chunkOf crates result env))
      ((driveItem crates outputPath runId state result env).route = .exported) := by
  rcases appends with ⟨writer, jsonl, fits⟩
  unfold driveItem
  dsimp only
  cases passed : (chunkOf crates result env).validate crates with
  | error e => exact ⟨⟨writer, jsonl, fits⟩, .inr ⟨nofun, rfl⟩⟩
  | ok validated =>
    cases eq_of_validates passed
    dsimp only
    cases returned : state.exporter.export crates outputPath env state.outputs
        (chunkOf crates result env) with
    | mk answer rest =>
      obtain ⟨exporter, outputs⟩ := rest
      have wrote := returned
      rw [jsonl] at wrote
      injection wrote with result_eq rest_eq
      injection rest_eq with writer_eq outputs_eq
      rcases jsonlExport_spec crates outputPath env.append fits flat rfl with
        ⟨stillFits, ⟨ok, -, lines⟩ | ⟨failed, lines, -⟩⟩
      · rw [ok] at result_eq
        subst result_eq writer_eq outputs_eq
        exact ⟨⟨_, rfl, stillFits⟩, .inl ⟨rfl, lines⟩⟩
      · cases answer with
        | ok => exact absurd result_eq failed
        | error e =>
          subst writer_eq outputs_eq
          exact ⟨⟨_, rfl, stillFits⟩, .inr ⟨nofun, lines⟩⟩

variable (crates outputPath runId) in
theorem step_lines (visit : Visit) (noResume : NoResume visit.state.session)
    (appends : Appends visit.state.exporter visit.state.outputs)
    (flat : newline ∉ serializeLine crates (chunkOf crates visit.result visit.env)) :
    AddsLine visit.state.outputs.jsonl (visit.step crates outputPath runId).state
      (serializeLine crates (chunkOf crates visit.result visit.env))
      (visit.appended crates outputPath runId = true) := by
  by_cases repeated : visit.key crates ∈ visit.state.session.driven
  · rcases step_claimed outputPath runId repeated with ⟨same, -, kept⟩
    rw [same, kept]
    exact ⟨appends, .inr ⟨nofun, rfl⟩⟩
  · rw [Visit.appended, step_taken noResume repeated, decide_eq_true_eq]
    exact driveItem_lines outputPath runId (visit.claimedState crates) appends flat

/-- The lines that a run adds to a JSONL file are those of its appended items, in order. -/
theorem visits_lines (noResume : NoResume state.session) (appends : Appends state.exporter state.outputs)
    (flat : ∀ item ∈ items, newline ∉ serializeLine crates (chunkOf crates item.1 item.2)) :
    durableLines (runItems crates outputPath runId state items).1.outputs.jsonl =
      durableLines state.outputs.jsonl ++
        ((visits crates outputPath runId state items).filter (Visit.appended crates outputPath runId)).map
          fun visit => serializeLine crates (chunkOf crates visit.result visit.env) ++ [newline] := by
  induction items generalizing state with
  | nil => simp [runItems, visits]
  | cons item rest ih =>
    have stepped := step_lines crates outputPath runId ⟨state, item.1, item.2⟩ noResume appends
      (flat _ List.mem_cons_self)
    have still := (step_driven crates outputPath runId ⟨state, item.1, item.2⟩ noResume ("", "")).1
    have later := ih still stepped.appends fun item member => flat item (List.mem_cons_of_mem _ member)
    have own : durableLines (Visit.step crates outputPath runId ⟨state, item.1, item.2⟩).state.outputs.jsonl =
        durableLines state.outputs.jsonl ++
          ([(⟨state, item.1, item.2⟩ : Visit)].filter (Visit.appended crates outputPath runId)).map
            fun visit => serializeLine crates (chunkOf crates visit.result visit.env) ++ [newline] := by
      rcases stepped.lines with ⟨done, grown⟩ | ⟨not_done, same⟩
      · rw [grown, List.filter_cons_of_pos done]
        rfl
      · rw [same, List.filter_cons_of_neg not_done]
        simp
    rw [runItems_cons, visits_cons]
    split
    next => exact own
    next =>
      rw [later, own, List.append_assoc, ← List.map_append, ← List.filter_append]
      rfl

/-! ### A call -/

/-- The items that a call comes to. -/
def callVisits (crates : ExportCrates) (outputPath : String) (ctx : Option ResumeContext)
    (store : RecordStore) (format : ExportFormat) (env : CallEnv)
    (results : List (ScrapedContent × ItemEnv)) (file : StateFile) (outputs : Outputs) : List Visit :=
  visits crates outputPath (ctx.elim env.fallbackRunId ResumeContext.runId)
    (openState crates ctx store format env.load file outputs).1 results

/-- A pair is served: it gets one line where an item of it validates and its append would succeed, and
no valid item of it is skipped as a repetition of items that came to nothing. -/
def PairServed (crates : ExportCrates) (outputPath runId url content : String) (run : List Visit) : Prop :=
  Served (Visit.hasPair url content) (Visit.succeeds crates outputPath)
    (Visit.appended crates outputPath runId) (fun visit => visit.validates crates = true)
    (Visit.skippedAsDuplicate crates outputPath runId) run

theorem succeeds_validates {visit : Visit} (fine : visit.succeeds crates outputPath = true) :
    visit.validates crates = true := by
  unfold Visit.succeeds at fine
  unfold Visit.validates
  cases checked : (chunkOf crates visit.result visit.env).validate crates with
  | error e => simp [checked] at fine
  | ok validated => rfl

theorem key_of_hasPair {url content : String} {visit : Visit} (same : visit.hasPair url content = true) :
    visit.key crates = (url, crates.sha256Hex content) := by
  simp only [Visit.hasPair, Bool.and_eq_true, decide_eq_true_eq] at same
  simp [Visit.key, contentHash, same]

/-- A call without resume serves a pair exactly where the first item of its URL and content hash has
the pair and succeeds, or no later item of the pair validates. The lines that it adds to a JSONL file
are those of the items it appends. -/
theorem processResults_serves_iff (crates : ExportCrates) (outputPath : String) (ctx : Option ResumeContext)
    (store : RecordStore) (format : ExportFormat) (env : CallEnv) (results : List (ScrapedContent × ItemEnv))
    (file : StateFile) (outputs : Outputs) (noResume : ∀ context, ctx = some context → context.resume = false)
    {call : CallResult}
    (returned : processResults crates outputPath ctx store format env results file outputs = .ok call) :
    let run := callVisits crates outputPath ctx store format env results file outputs
    let runId := ctx.elim env.fallbackRunId ResumeContext.runId
    (call.traces = run.map fun visit =>
        (visit.step crates outputPath runId).trace crates visit.result.url) ∧
      ((createExporter outputs format).IsJsonl →
        (∀ item ∈ results, newline ∉ serializeLine crates (chunkOf crates item.1 item.2)) →
        durableLines call.outputs.jsonl = durableLines outputs.jsonl ++
          (run.filter (Visit.appended crates outputPath runId)).map fun visit =>
            serializeLine crates (chunkOf crates visit.result visit.env) ++ [newline]) ∧
      ∀ url content, PairServed crates outputPath runId url content run ↔
        (∃ visit, run.find? (fun visit => decide (visit.key crates = (url, crates.sha256Hex content))) =
            some visit ∧ visit.hasPair url content = true ∧ visit.succeeds crates outputPath = true) ∨
          ∀ front visit back, run = front ++ visit :: back → visit.hasPair url content = true →
            (∃ other ∈ front, other.key crates = (url, crates.sha256Hex content)) →
            ¬ visit.validates crates = true := by
  intro run runId
  have still : NoResume (openState crates ctx store format env.load file outputs).1.session := noResume
  have ready := openState_ready crates ctx store format env.load file outputs
  unfold processResults at returned
  split at returned
  next => cases returned
  next =>
    cases returned
    refine ⟨runItems_traces results _, fun jsonl flat => ?_, fun url content => ?_⟩
    · rcases jsonl with ⟨writer, selected⟩
      refine visits_lines still ⟨writer, selected, ?_⟩ flat
      have fits := ready.fits
      rwa [show (openState crates ctx store format env.load file outputs).1.exporter = .jsonl writer
        from selected] at fits
    · exact (visits_claimsFirst still rfl).served_iff _ (fun _ => key_of_hasPair)
        fun _ => succeeds_validates

/-! A page comes twice. -/

namespace DuplicateRuns

open PlainCrates

def titled : ScrapedContent := page "https://example.com/a" "a"

def untitled : ScrapedContent := { titled with title := "" }

/-- The output directory cannot be made. -/
def refusing : ItemEnv := { itemEnv 1 with append := { fault := some .directory } }

def call (results : List (ScrapedContent × ItemEnv)) : Except ExporterError CallResult :=
  processResults (printing [titled]) "export.jsonl" none ⟨"example.com"⟩ .jsonl { fallbackRunId := "run" }
    results .missing ⟨none, none⟩

def run (results : List (ScrapedContent × ItemEnv)) : List Visit :=
  callVisits (printing [titled]) "export.jsonl" none ⟨"example.com"⟩ .jsonl { fallbackRunId := "run" }
    results .missing ⟨none, none⟩

def summary (call : CallResult) : List Route × Option Bytes :=
  (call.traces.map ItemTrace.route, call.outputs.jsonl)

/-- A run in which an item of the pair succeeds and none is appended does not serve the pair. -/
theorem not_served {results : List (ScrapedContent × ItemEnv)}
    (fine : ((run results).any fun visit => visit.hasPair titled.url titled.content &&
      visit.succeeds (printing [titled]) "export.jsonl") = true)
    (lost : ((run results).filter fun visit => visit.hasPair titled.url titled.content &&
      visit.appended (printing [titled]) "export.jsonl" "run") = []) :
    ¬ PairServed (printing [titled]) "export.jsonl" "run" titled.url titled.content (run results) := by
  intro served
  rcases List.any_eq_true.mp fine with ⟨visit, member, both⟩
  have one := served.once ⟨visit, member, by simpa using both⟩
  rw [lost] at one
  cases one

end DuplicateRuns

open DuplicateRuns PlainCrates in
/-- The page without a title is not valid, and the page of the second run is not appended, but they
hold the claim: the page that comes behind is skipped. -/
theorem failed_page_holds_claim :
    ((call [(untitled, itemEnv 1), (titled, itemEnv 1)]).toOption.map summary =
        some ([.invalid, .duplicate], none) ∧
      ¬ PairServed (printing [titled]) "export.jsonl" "run" titled.url titled.content
        (run [(untitled, itemEnv 1), (titled, itemEnv 1)])) ∧
    ((call [(titled, refusing), (titled, itemEnv 1)]).toOption.map summary =
        some ([.exportFailed, .duplicate], none) ∧
      ¬ PairServed (printing [titled]) "export.jsonl" "run" titled.url titled.content
        (run [(titled, refusing), (titled, itemEnv 1)])) :=
  ⟨⟨by decide, not_served (by decide) (by decide)⟩,
    ⟨by decide, not_served (by decide) (by decide)⟩⟩

open DuplicateRuns PlainCrates in
/-- The first of two valid items is appended, and the second skipped. -/
theorem repeated_page_served :
    PairServed (printing [titled]) "export.jsonl" "run" titled.url titled.content
      (run [(titled, itemEnv 1), (titled, itemEnv 1)]) := by
  cases ran : call [(titled, itemEnv 1), (titled, itemEnv 1)] with
  | error e =>
    have returned : (call [(titled, itemEnv 1), (titled, itemEnv 1)]).toOption.isSome = true := by
      decide
    rw [ran] at returned
    cases returned
  | ok answer =>
    have served := (processResults_serves_iff (printing [titled]) "export.jsonl" none ⟨"example.com"⟩ .jsonl
      { fallbackRunId := "run" } [(titled, itemEnv 1), (titled, itemEnv 1)] .missing ⟨none, none⟩ nofun
      ran).2.2 titled.url titled.content
    refine served.mpr (.inl ?_)
    have first : ((run [(titled, itemEnv 1), (titled, itemEnv 1)]).find? fun visit => decide
        (visit.key (printing [titled]) =
          (titled.url, (printing [titled]).sha256Hex titled.content))).any
        (fun visit => visit.hasPair titled.url titled.content &&
          visit.succeeds (printing [titled]) "export.jsonl") = true := by decide
    rcases (Option.any_eq_true _ _).mp first with ⟨visit, found, both⟩
    rw [Bool.and_eq_true] at both
    exact ⟨visit, found, both⟩

end Webfang.Export
