import Webfang.Export.AppendLog
import Webfang.Export.CommittedLines
import Webfang.Export.CountWindow

/-!
# Calls that export every item

A call without a resume context whose items all differ, are all valid and meet no error appends a
record for each of them, in either format.
-/
namespace Webfang.Export

open Library Domain Segments

variable {crates : ExportCrates} {outputPath runId : String}

/-- What a call tells its items apart by. -/
def claimOf (crates : ExportCrates) (item : ScrapedContent × ItemEnv) : String × String :=
  (item.1.url, contentHash crates item.1)

def documentOf (crates : ExportCrates) (item : ScrapedContent × ItemEnv) : DocumentChunk :=
  chunkOf crates item.1 item.2

/-- The document passes its validation, and no file-system call fails. -/
structure ItemFits (crates : ExportCrates) (item : ScrapedContent × ItemEnv) : Prop where
  valid : (documentOf crates item).validate crates = .ok (documentOf crates item)
  healthy : item.2.append.fault = none

/-! ### The loop -/

theorem processSingleItem_exports {state : ExportState} {item : ScrapedContent × ItemEnv}
    (alone : state.session.ctx = none) (fresh : claimOf crates item ∉ state.session.driven)
    (fits : ItemFits crates item) {exporter : Exporter} {outputs : Outputs}
    (exported : state.exporter.export crates outputPath item.2 state.outputs (documentOf crates item) =
      (.ok (), exporter, outputs)) :
    ∃ session saves, processSingleItem crates outputPath runId state item.1 item.2 =
        ⟨⟨session, exporter, outputs⟩, .driven, .exported, saves⟩ ∧
      session.ctx = none ∧ session.driven = claimOf crates item :: state.session.driven := by
  have decided : state.session.decide crates.urls item.1.url (some (contentHash crates item.1)) =
      .driveAndCommit := by
    rw [CommitSession.decide, alone]
  have valid : (chunkOf crates item.1 item.2).validate crates = .ok (chunkOf crates item.1 item.2) :=
    fits.valid
  have returned : state.exporter.export crates outputPath item.2 state.outputs
      (chunkOf crates item.1 item.2) = (.ok (), exporter, outputs) := exported
  rw [processSingleItem_fresh fresh]
  simp only [decided, driveItem, valid, returned]
  -- the commit moves records only
  obtain ⟨same, -⟩ := commitItem_spec crates.urls
    (claimed state.session item.1.url (contentHash crates item.1)) item.1.url (contentHash crates item.1)
    outputPath runId item.2.now
  have unbound := same.ctx.trans alone
  have goesOn (session : CommitSession) (unbound : session.ctx = none) :
      cancelledIn session item.2 = false := by
    simp [cancelledIn, unbound]
  simp only [goesOn _ unbound, Bool.false_eq_true, ↓reduceIte]
  exact ⟨_, _, rfl, unbound, same.driven⟩

/-- What one export after the other establishes holds at the end of the loop. -/
theorem runItems_every {Holds : List (ScrapedContent × ItemEnv) → Exporter → Outputs → Prop}
    {items : List (ScrapedContent × ItemEnv)} (distinct : (items.map (claimOf crates)).Nodup)
    (fits : ∀ item ∈ items, ItemFits crates item) {before : List (ScrapedContent × ItemEnv)}
    (exports : ∀ ahead item rest, items = ahead ++ item :: rest → ∀ exporter outputs,
      Holds (before ++ ahead) exporter outputs → ∃ exporter' outputs',
        exporter.export crates outputPath item.2 outputs (documentOf crates item) =
          (.ok (), exporter', outputs') ∧
        Holds (before ++ (ahead ++ [item])) exporter' outputs')
    {state : ExportState} (alone : state.session.ctx = none)
    (fresh : ∀ item ∈ items, claimOf crates item ∉ state.session.driven)
    (start : Holds before state.exporter state.outputs) :
    Holds (before ++ items) (runItems crates outputPath runId state items).1.exporter
      (runItems crates outputPath runId state items).1.outputs := by
  induction items generalizing before state with
  | nil =>
    rw [List.append_nil]
    exact start
  | cons item rest ih =>
    obtain ⟨new, distinct⟩ := List.nodup_cons.mp distinct
    rw [← List.append_nil before] at start
    obtain ⟨exporter, outputs, exported, holds⟩ := exports [] item rest rfl _ _ start
    obtain ⟨session, saves, done, unbound, driven⟩ :=
      @processSingleItem_exports crates outputPath runId state item alone (fresh item List.mem_cons_self)
        (fits item List.mem_cons_self) exporter outputs exported
    have joined : before ++ item :: rest = before ++ [item] ++ rest := by simp
    rw [runItems, done]
    dsimp only
    rw [if_neg (by simp), joined]
    apply ih distinct (fun other member => fits other (List.mem_cons_of_mem _ member))
    · intro ahead next after split exporter outputs sofar
      have further := exports (item :: ahead) next after (by rw [split, List.cons_append]) exporter outputs
      simpa using further (by simpa using sofar)
    · exact unbound
    · intro other member
      rw [driven]
      intro claimed
      rcases List.mem_cons.mp claimed with same | earlier
      · exact new (same ▸ List.mem_map_of_mem member)
      · exact fresh other (List.mem_cons_of_mem _ member) earlier
    · exact holds

theorem processResults_every {Holds : List (ScrapedContent × ItemEnv) → Exporter → Outputs → Prop}
    {items : List (ScrapedContent × ItemEnv)} (distinct : (items.map (claimOf crates)).Nodup)
    (fits : ∀ item ∈ items, ItemFits crates item)
    (exports : ∀ ahead item rest, items = ahead ++ item :: rest → ∀ exporter outputs,
      Holds ahead exporter outputs → ∃ exporter' outputs',
        exporter.export crates outputPath item.2 outputs (documentOf crates item) =
          (.ok (), exporter', outputs') ∧
        Holds (ahead ++ [item]) exporter' outputs')
    {outputs : Outputs} {format : ExportFormat} (start : Holds [] (createExporter outputs format) outputs)
    (store : RecordStore) {env : CallEnv} (created : env.directoryError = none) (file : StateFile) :
    ∃ call exporter, processResults crates outputPath none store format env items file outputs = .ok call ∧
      Holds items exporter call.outputs := by
  rw [processResults, created]
  refine ⟨_, (runItems crates outputPath env.fallbackRunId
    (openState crates none store format env.load file outputs).1 items).1.exporter, rfl, ?_⟩
  exact @runItems_every crates outputPath _ Holds items distinct fits [] exports _ rfl
    (fun _ _ => List.not_mem_nil) start

/-! ### The JSONL file -/

theorem tornBytes_short {file : Option Bytes} (clean : tornBytes file = []) :
    ¬ TailTooLong (outputBytes file) := by
  rintro ⟨long, absent⟩
  have whole := terminatedPrefix_append_tornTail newline (outputBytes file)
  have nothing : tornTail newline (outputBytes file) = [] := clean
  rw [nothing, List.append_nil] at whole
  rcases terminated_terminatedPrefix newline (outputBytes file) with empty | ⟨front, ended⟩
  · rw [← whole, empty] at long
    exact absurd long (by decide)
  · -- the last byte is inside the window
    apply absent
    rw [← whole, ended, List.drop_append_of_le_length]
    · simp
    · have positive : 0 < maxTailWindowBytes := by decide
      simp only [List.length_append, List.length_singleton]
      omega

/-- The writer can append. -/
def JsonlReady (writer : JsonlWriter) (file : Option Bytes) : Prop :=
  (writer = .unopened ∧ ¬ TailTooLong (outputBytes file)) ∨ (writer = .running ∧ tornBytes file = [])

theorem JsonlReady.fits {writer : JsonlWriter} {file : Option Bytes} (ready : JsonlReady writer file) :
    writer.Fits file := by
  rcases ready with ⟨unopened, -⟩ | ⟨-, clean⟩
  · intro running
    rw [unopened] at running
    cases running
  · exact fun _ => clean

theorem openWriter_ready {env : AppendEnv} (healthy : env.fault = none) {writer : JsonlWriter}
    {file : Option Bytes} (ready : JsonlReady writer file) :
    (openWriter crates outputPath env writer file).result = .ok () ∧
      (openWriter crates outputPath env writer file).writer = .running := by
  classical
  rw [openWriter]
  rcases ready with ⟨rfl, short⟩ | ⟨rfl, -⟩
  · have opened : ∃ recovered, jsonlSessionOpen crates.fromStr file = .ok recovered := by
      cases file with
      | none => exact ⟨_, rfl⟩
      | some bytes =>
        have short : ¬ TailTooLong bytes := short
        rw [jsonlSessionOpen, recoverTornTail_eq, if_neg short]
        exact ⟨_, rfl⟩
    obtain ⟨recovered, opened⟩ := opened
    simp [healthy, opened]
  · simp

/-- An append that meets no error: its line is the last one of the file. -/
theorem jsonlExport_ready {env : AppendEnv} (healthy : env.fault = none) {writer : JsonlWriter}
    {file : Option Bytes} (ready : JsonlReady writer file) {document : DocumentChunk}
    (flat : newline ∉ serializeLine crates document) :
    ∃ bytes, jsonlExport crates outputPath env writer file document = ⟨.ok (), .running, some bytes⟩ ∧
      tornBytes (some bytes) = [] ∧
      durableLines (some bytes) = durableLines file ++ [serializeLine crates document ++ [newline]] := by
  obtain ⟨ok, running⟩ := @openWriter_ready crates outputPath _ healthy _ _ ready
  obtain ⟨-, outcome⟩ := jsonlExport_spec crates outputPath env ready.fits flat rfl
  have returned : ∃ bytes, jsonlExport crates outputPath env writer file document =
      ⟨.ok (), .running, some bytes⟩ := by
    rw [jsonlExport, ok, running, appendAndFlush, healthy]
    exact ⟨_, rfl⟩
  obtain ⟨bytes, returned⟩ := returned
  rw [returned] at outcome
  rcases outcome with ⟨-, clean, lines⟩ | ⟨failed, -⟩
  · exact ⟨bytes, returned, clean, lines⟩
  · exact absurd rfl failed

/-- The JSONL file after the first items of a call. -/
structure JsonlSoFar (crates : ExportCrates) (outputs : Outputs) (done : List (ScrapedContent × ItemEnv))
    (exporter : Exporter) (after : Outputs) : Prop where
  writer : ∃ writer, exporter = .jsonl writer ∧ JsonlReady writer after.jsonl
  other : after.vector = outputs.vector
  lines : durableLines after.jsonl =
    durableLines outputs.jsonl ++ done.map (fun item => jsonlLine crates (documentOf crates item))
  file : if done = [] then after.jsonl = outputs.jsonl
    else after.jsonl.isSome = true ∧ tornBytes after.jsonl = []

theorem JsonlSoFar.export {outputs after : Outputs} {done : List (ScrapedContent × ItemEnv)}
    {exporter : Exporter} (sofar : JsonlSoFar crates outputs done exporter after)
    {item : ScrapedContent × ItemEnv} (fits : ItemFits crates item)
    (flat : newline ∉ serializeLine crates (documentOf crates item)) :
    ∃ exporter' outputs',
      exporter.export crates outputPath item.2 after (documentOf crates item) =
          (.ok (), exporter', outputs') ∧
        JsonlSoFar crates outputs (done ++ [item]) exporter' outputs' := by
  obtain ⟨writer, rfl, ready⟩ := sofar.writer
  obtain ⟨bytes, exported, clean, grown⟩ :=
    @jsonlExport_ready crates outputPath _ fits.healthy writer after.jsonl ready (documentOf crates item) flat
  refine ⟨.jsonl .running, { after with jsonl := some bytes }, ?_, ⟨_, rfl, .inr ⟨rfl, clean⟩⟩,
    sofar.other, ?_, ?_⟩
  · rw [Exporter.export, exported]
  · rw [grown, sofar.lines, List.map_append, List.append_assoc]
    rfl
  · rw [if_neg (by simp)]
    exact ⟨rfl, clean⟩

theorem processResults_jsonl {items : List (ScrapedContent × ItemEnv)}
    (distinct : (items.map (claimOf crates)).Nodup) (fits : ∀ item ∈ items, ItemFits crates item)
    (flat : ∀ document, newline ∉ serializeLine crates document) {outputs : Outputs} {format : ExportFormat}
    (selected : createExporter outputs format = .jsonl .unopened)
    (short : ¬ TailTooLong (outputBytes outputs.jsonl)) (store : RecordStore) {env : CallEnv}
    (created : env.directoryError = none) (file : StateFile) :
    ∃ call exporter, processResults crates outputPath none store format env items file outputs = .ok call ∧
      JsonlSoFar crates outputs items exporter call.outputs := by
  apply processResults_every distinct fits ?_ ?_ store created file
  · intro ahead item rest split exporter after sofar
    have member : item ∈ items := split ▸ List.mem_append_right _ List.mem_cons_self
    exact sofar.export (fits item member) (flat _)
  · exact ⟨⟨_, selected, .inl ⟨rfl, short⟩⟩, rfl, by simp, rfl⟩

/-! ### The vector file -/

def textOf (crates : ExportCrates) (item : ScrapedContent × ItemEnv) : Bytes :=
  serializeDocument crates (documentOf crates item)

/-- Each append of the call finds the bracket, in the file as the items before it left it, and the
count stays in its window. -/
structure ScansFit (crates : ExportCrates) (items : List (ScrapedContent × ItemEnv))
    (bytes front back : Bytes) (documents : List Bytes) : Prop where
  room : documents.length + items.length < 10 ^ countFieldWidth
  first : TailDecodes bytes
  later : ∀ n, 0 < n → n < items.length → TailDecodes (counted front back (documents.length + n)
    (documents ++ (items.take n).map (textOf crates)) ++ closing)

/-- The vector file after the first items of a call. -/
structure VectorSoFar (crates : ExportCrates) (outputs : Outputs) (front back : Bytes)
    (documents : List Bytes) (done : List (ScrapedContent × ItemEnv)) (exporter : Exporter)
    (after : Outputs) : Prop where
  same : exporter = .vector
  other : after.jsonl = outputs.jsonl
  file : if done = [] then after.vector = outputs.vector
    else after.vector = some (counted front back (documents.length + done.length)
      (documents ++ done.map (textOf crates)) ++ closing)

theorem VectorSoFar.export {outputs after : Outputs} {front back : Bytes} {documents : List Bytes}
    {done : List (ScrapedContent × ItemEnv)} {exporter : Exporter}
    (sofar : VectorSoFar crates outputs front back documents done exporter after)
    {item : ScrapedContent × ItemEnv} (healthy : item.2.append.fault = none)
    (view : VectorView item.2.createdAt (outputBytes after.vector) front back
      (documents ++ done.map (textOf crates))) (decodes : TailDecodes (outputBytes after.vector))
    (room : documents.length + done.length + 1 < 10 ^ countFieldWidth) :
    ∃ exporter' outputs',
      exporter.export crates outputPath item.2 after (documentOf crates item) =
          (.ok (), exporter', outputs') ∧
        VectorSoFar crates outputs front back documents (done ++ [item]) exporter' outputs' := by
  have size : (documents ++ done.map (textOf crates)).length = documents.length + done.length := by
    rw [List.length_append, List.length_map]
  have appended := @VectorView.append crates _ _ _ _ _ _ view healthy decodes (by rwa [size])
    (documentOf crates item)
  generalize written : some (_ ++ closing) = file at appended
  rw [sofar.same]
  refine ⟨.vector, ⟨after.jsonl, file⟩, ?_, rfl, sofar.other, ?_⟩
  · rw [Exporter.export, appended]
  · rw [if_neg (by simp), ← written, size, List.length_append, List.map_append, ← List.append_assoc documents]
    rfl

theorem processResults_vector {first : ScrapedContent × ItemEnv} {rest : List (ScrapedContent × ItemEnv)}
    (distinct : ((first :: rest).map (claimOf crates)).Nodup)
    (fits : ∀ item ∈ first :: rest, ItemFits crates item) {outputs : Outputs} {format : ExportFormat}
    (selected : createExporter outputs format = .vector) {front back : Bytes} {documents : List Bytes}
    (view : VectorView first.2.createdAt (outputBytes outputs.vector) front back documents)
    (scans : ScansFit crates (first :: rest) (outputBytes outputs.vector) front back documents)
    (store : RecordStore) {env : CallEnv} (created : env.directoryError = none) (file : StateFile) :
    ∃ call exporter,
      processResults crates outputPath none store format env (first :: rest) file outputs = .ok call ∧
      VectorSoFar crates outputs front back documents (first :: rest) exporter call.outputs := by
  have room := scans.room
  apply processResults_every distinct fits ?_ ?_ store created file
  · intro ahead item behind split exporter after sofar
    have within : ahead.length < (first :: rest).length := by
      rw [split, List.length_append, List.length_cons]
      omega
    have healthy := (fits item (split ▸ List.mem_append_right _ List.mem_cons_self)).healthy
    cases ahead with
    | nil =>
      obtain ⟨rfl, -⟩ := List.cons.inj split
      have untouched : after.vector = outputs.vector := sofar.file
      refine sofar.export healthy ?_ ?_ (by simpa using by omega)
      · simpa [untouched] using view
      · rw [untouched]
        exact scans.first
    | cons start ahead =>
      -- the file holds the documents so far, under a header that the append keeps
      have bytes := sofar.file
      rw [if_neg (List.cons_ne_nil start ahead)] at bytes
      have taken : (first :: rest).take (start :: ahead).length = start :: ahead := by
        rw [split, List.take_left]
      have decodes := scans.later (start :: ahead).length (by simp) within
      rw [taken] at decodes
      have size : (documents ++ (start :: ahead).map (textOf crates)).length =
          documents.length + (start :: ahead).length := by
        rw [List.length_append, List.length_map]
      have viewed := @CountWindow.view _ _ view.window (documents ++ (start :: ahead).map (textOf crates))
        (by simp) (by rw [size]; omega) item.2.createdAt
      rw [size] at viewed
      refine sofar.export healthy ?_ ?_ (by omega)
      · rw [bytes]
        exact viewed
      · rw [bytes]
        exact decodes
  · exact ⟨selected, rfl, rfl⟩

/-- The same for the documents that a file lists. -/
theorem processResults_listed {first : ScrapedContent × ItemEnv} {rest : List (ScrapedContent × ItemEnv)}
    (distinct : ((first :: rest).map (claimOf crates)).Nodup)
    (fits : ∀ item ∈ first :: rest, ItemFits crates item) {outputs : Outputs} {format : ExportFormat}
    (selected : createExporter outputs format = .vector) {documents : List Bytes}
    (listing : VectorListing (outputBytes outputs.vector) documents)
    (scans : ∀ front back, VectorView first.2.createdAt (outputBytes outputs.vector) front back documents →
      ScansFit crates (first :: rest) (outputBytes outputs.vector) front back documents)
    (store : RecordStore) {env : CallEnv} (created : env.directoryError = none) (file : StateFile) :
    ∃ call, processResults crates outputPath none store format env (first :: rest) file outputs = .ok call ∧
      call.outputs.jsonl = outputs.jsonl ∧ call.outputs.vector.isSome = true ∧
      VectorListing (outputBytes call.outputs.vector) (documents ++ (first :: rest).map (textOf crates)) := by
  obtain ⟨front, back, view⟩ := listing first.2.createdAt
  have room := (scans front back view).room
  obtain ⟨call, exporter, returned, after⟩ :=
    @processResults_vector crates outputPath first rest distinct fits outputs format selected front back
      documents view (scans front back view) store env created file
  have written := after.file
  rw [if_neg (List.cons_ne_nil first rest)] at written
  refine ⟨call, returned, after.other, by rw [written]; rfl, fun createdAt => ⟨front, back, ?_⟩⟩
  have size : (documents ++ (first :: rest).map (textOf crates)).length =
      documents.length + (first :: rest).length := by
    rw [List.length_append, List.length_map]
  have viewed := @CountWindow.view _ _ view.window (documents ++ (first :: rest).map (textOf crates))
    (by simp) (by rw [size]; exact room) createdAt
  rw [size] at viewed
  rw [written]
  exact viewed

/-- A call without items changes no file. -/
theorem processResults_nil (outputs : Outputs) (format : ExportFormat) (store : RecordStore) {env : CallEnv}
    (created : env.directoryError = none) (file : StateFile) :
    ∃ call, processResults crates outputPath none store format env [] file outputs = .ok call ∧
      call.outputs = outputs := by
  rw [processResults, created]
  exact ⟨_, rfl, rfl⟩

end Webfang.Export
