import Webfang.Export.WholeExports
import Webfang.Mcp.ExportResults

/-!
# Sequences of export calls

When an answer tells what its call did: every item is exported, and no export has the name of
another one's sidecar. The count in the answer is that of the session's results, so an item that is
skipped makes it wrong, and the sidecars share the names of the directory with the exports.
-/
namespace Webfang.Mcp

open Library Domain Export

variable {crates : ExportCrates} {pretty : Json → Bytes} {hash : String → UInt64}
  {exports growing : Set Artifact} {dir : Directory} {call : ExportCall}

/-! ### What an answer promises -/

/-- The file has so many records more. -/
def Adds (format : FileFormat) (before after : Option Bytes) (documents : Nat) : Prop :=
  match format with
  | .jsonl => ∃ lines, durableLines after = durableLines before ++ lines ∧ lines.length = documents
  | .vector => (∃ held, VectorListing (outputBytes before) held) ∧
    ∀ held, VectorListing (outputBytes before) held →
      ∃ added, VectorListing (outputBytes after) (held ++ added) ∧ added.length = documents

/-- An answer of success names a file that is there, its count and that of the sidecar are the records
that the call added to it, and the call left every other export alone. -/
structure Honest (pretty : Json → Bytes) (exports : Set Artifact) (dir : Directory) (call : ExportCall)
    (answer : ExportAnswer) (after : Directory) : Prop where
  success : ∀ documents file skipped, answer = .exported documents file skipped →
    ∃ artifact : Artifact, artifact.name = call.filename.name ∧ artifact.file = file ∧
      (after file).isSome = true ∧ Adds artifact.format (dir file) (after file) documents ∧
      after (sidecarPathFor file) = some (pretty (sidecarBody file call.format documents))
  others : ∀ other ∈ exports, other ≠ call.artifact dir →
    after other.file = dir other.file ∧ after other.sidecar = dir other.sidecar

/-! ### The condition -/

/-- Every result is exported, and its file and its sidecar are written without an error. -/
structure Whole (crates : ExportCrates) (dir : Directory) (call : ExportCall) : Prop where
  distinct : (call.results.map (claimOf crates)).Nodup
  fits : ∀ item ∈ call.results, ItemFits crates item
  sidecar : call.env.sidecar = .written
  present : call.results = [] → (dir (call.artifact dir).file).isSome = true
  scans : (call.artifact dir).format = .vector → ∀ first rest, call.results = first :: rest →
    ∀ front back documents,
      VectorView first.2.createdAt (outputBytes (dir (call.artifact dir).file)) front back documents →
        ScansFit crates call.results (outputBytes (dir (call.artifact dir).file)) front back documents

/-- The call adds to a `growing` export, and the names of all `exports` of the directory and of their
sidecars differ. -/
structure Meets (crates : ExportCrates) (exports growing : Set Artifact) (dir : Directory)
    (call : ExportCall) : Prop where
  known : call.artifact dir ∈ growing
  apart : ∀ other ∈ exports, other ≠ call.artifact dir →
    ¬ Clashes (call.artifact dir) other ∧ ¬ Clashes other (call.artifact dir)
  whole : call.env.call.directoryError = none → Whole crates dir call

/-- A file can be appended to: the tail of its lines is short enough for the recovery, or it is a
document that the exporter reads. -/
def Appendable (format : FileFormat) (file : Option Bytes) : Prop :=
  match format with
  | .jsonl => ¬ TailTooLong (outputBytes file)
  | .vector => ∃ documents, VectorListing (outputBytes file) documents

/-! ### One call -/

/-- What an export of every result leaves under the name of its call. -/
structure Exports (own : FileFormat) (before after : Outputs) (documents : Nat) : Prop where
  present : (own.of after).isSome = true
  adds : Adds own (own.of before) (own.of after) documents
  appendable : Appendable own (own.of after)
  other : ∀ format, format ≠ own → format.of after = format.of before

variable {before after : Outputs} {items : List (ScrapedContent × ItemEnv)}

theorem exports_nothing {own : FileFormat} (present : (own.of before).isSome = true)
    (appendable : Appendable own (own.of before)) : Exports own before before 0 := by
  refine ⟨present, ?_, appendable, fun _ _ => rfl⟩
  cases own with
  | jsonl => exact ⟨[], by simp, rfl⟩
  | vector => exact ⟨appendable, fun held listing => ⟨[], by rwa [List.append_nil], rfl⟩⟩

theorem exports_jsonl {exporter : Exporter} (sofar : JsonlSoFar crates before items exporter after)
    (more : items ≠ []) : Exports .jsonl before after items.length := by
  have written := sofar.file
  rw [if_neg more] at written
  refine ⟨written.1, ⟨_, sofar.lines, by rw [List.length_map]⟩, tornBytes_short written.2, ?_⟩
  intro format other
  cases format with
  | jsonl => exact absurd rfl other
  | vector => exact sofar.other

theorem createExporter_cases (outputs : Outputs) (format : ExportFormat) :
    createExporter outputs format = .jsonl .unopened ∨ createExporter outputs format = .vector := by
  cases format with
  | jsonl => exact .inl rfl
  | vector => exact .inr rfl
  | auto =>
    rw [createExporter]
    split
    next => exact .inl rfl
    next =>
      split
      next => exact .inr rfl
      next => exact .inl rfl

theorem processResults_exports {outputPath : String} {format : ExportFormat} {env : CallEnv}
    (flat : ∀ value, newline ∉ utf8 (crates.toString value))
    (appendable : Appendable (formatOf (createExporter before format))
      ((formatOf (createExporter before format)).of before))
    (distinct : (items.map (claimOf crates)).Nodup) (fits : ∀ item ∈ items, ItemFits crates item)
    (present : items = [] → ((formatOf (createExporter before format)).of before).isSome = true)
    (scans : createExporter before format = .vector → ∀ first rest, items = first :: rest →
      ∀ front back documents, VectorView first.2.createdAt (outputBytes before.vector) front back documents →
        ScansFit crates items (outputBytes before.vector) front back documents)
    (store : RecordStore) (created : env.directoryError = none) (file : StateFile) :
    ∃ done, processResults crates outputPath none store format env items file before = .ok done ∧
      Exports (formatOf (createExporter before format)) before done.outputs items.length := by
  cases items with
  | nil =>
    obtain ⟨done, returned, same⟩ :=
      @processResults_nil crates outputPath before format store env created file
    refine ⟨done, returned, ?_⟩
    rw [same]
    exact exports_nothing (present rfl) appendable
  | cons first rest =>
    rcases createExporter_cases before format with selected | selected
    · rw [selected] at appendable ⊢
      obtain ⟨done, exporter, returned, sofar⟩ :=
        @processResults_jsonl crates outputPath (first :: rest) distinct fits
          (fun document => flat (jsonlValue crates document)) before format selected appendable store env
          created file
      exact ⟨done, returned, exports_jsonl sofar (List.cons_ne_nil first rest)⟩
    · -- whatever list of documents the file is read as, the call adds its own to it
      have listed (held : List Bytes) (listing : VectorListing (outputBytes before.vector) held) :=
        @processResults_listed crates outputPath first rest distinct fits before format selected held listing
          (fun front back => scans selected first rest rfl front back held) store env created file
      rw [selected] at appendable ⊢
      obtain ⟨held, listing⟩ := appendable
      obtain ⟨done, returned, other, written, after⟩ := listed held listing
      refine ⟨done, returned, written, ⟨⟨held, listing⟩, ?_⟩, ⟨_, after⟩, ?_⟩
      · intro held listing
        obtain ⟨again, same, -, -, after⟩ := listed held listing
        rw [returned] at same
        cases same
        exact ⟨_, after, by rw [List.length_map]⟩
      · intro format different
        cases format with
        | jsonl => exact other
        | vector => exact absurd rfl different

theorem of_outputsOf (dir : Directory) (filename : SanitizedFilename) (format : FileFormat) :
    format.of (outputsOf hash dir filename) = dir (Artifact.file ⟨filename.name, format⟩) := by
  rw [outputsOf, exportName_eq]
  cases format <;> rfl

theorem artifact_eq (hash : String → UInt64) (dir : Directory) (call : ExportCall) : call.artifact dir =
    ⟨call.filename.name, formatOf (createExporter (outputsOf hash dir call.filename) call.format)⟩ := by
  rw [outputsOf, exportName_eq]
  rfl

theorem processCall_exports (flat : ∀ value, newline ∉ utf8 (crates.toString value))
    (appendable : Appendable (call.artifact dir).format (dir (call.artifact dir).file))
    (created : call.env.call.directoryError = none) (whole : Whole crates dir call) :
    ∃ done, processCall crates hash dir call = .ok done ∧
      Exports (call.artifact dir).format (outputsOf hash dir call.filename) done.outputs
        call.results.length := by
  have file := @of_outputsOf hash dir call.filename (call.artifact dir).format
  have same := artifact_eq hash dir call
  obtain ⟨distinct, fits, -, present, scans⟩ := whole
  have named : Artifact.mk call.filename.name (call.artifact dir).format = call.artifact dir := by rw [same]
  rw [named] at file
  rw [← file] at appendable present scans
  rw [same] at appendable present scans ⊢
  refine processResults_exports flat appendable distinct fits present ?_ ⟨""⟩ created .missing
  intro selected
  have fitting := scans (congrArg formatOf selected)
  rw [selected] at fitting
  exact fitting

/-! ### The files of the directory -/

theorem exported_file (done : CallResult) (format : FileFormat) :
    exported hash dir call done (Artifact.file ⟨call.filename.name, format⟩) = format.of done.outputs := by
  rw [exported, writeOutputs, exportName_eq]
  cases format with
  | vector => exact Function.update_self _ _ _
  | jsonl =>
    have other : call.filename.name ++ ".jsonl" ≠ call.filename.name ++ ".json" := by
      rw [ne_eq, String.append_right_inj]
      decide
    exact (Function.update_of_ne other _ _).trans (Function.update_self _ _ _)

/-- The export changes its own file, and what has the ending of neither exports nor sidecars. -/
theorem exported_other {done : CallResult} {documents : Nat}
    (exports : Exports (call.artifact dir).format (outputsOf hash dir call.filename) done.outputs documents)
    {candidate : String} (apart : candidate ≠ (call.artifact dir).file)
    (backup : candidate.toList.getLast? ≠ some 'k') (stray : candidate.toList.getLast? ≠ some 'p') :
    exported hash dir call done candidate = dir candidate := by
  -- the file of the other format under the call's name is written as it was
  have same (format : FileFormat) (named : candidate = Artifact.file ⟨call.filename.name, format⟩) :
      exported hash dir call done candidate = dir candidate := by
    have different : format ≠ (call.artifact dir).format := by
      rintro rfl
      exact apart named
    rw [named, exported_file, exports.other format different, of_outputsOf]
  by_cases jsonl : candidate = Artifact.file ⟨call.filename.name, .jsonl⟩
  · exact same .jsonl jsonl
  · by_cases vector : candidate = Artifact.file ⟨call.filename.name, .vector⟩
    · exact same .vector vector
    · exact exported_frame hash dir call done jsonl vector backup stray

/-- The answer names the file that the export wrote. -/
theorem resolveExportPath_exported {done : CallResult} {documents : Nat}
    (exports : Exports (call.artifact dir).format (outputsOf hash dir call.filename) done.outputs documents) :
    resolveExportPath (exported hash dir call done) call.filename call.format = (call.artifact dir).file := by
  have jsonl := @exported_file hash dir call done .jsonl
  have present := exports.present
  have other := exports.other
  rw [artifact_eq hash] at present other ⊢
  cases requested : call.format with
  | jsonl => exact String.append_assoc
  | vector => exact String.append_assoc
  | auto =>
    rw [requested] at present other
    have found : (exported hash dir call done (call.filename.name ++ ".jsonl")).isSome =
        done.outputs.jsonl.isSome := congrArg Option.isSome jsonl
    rw [resolveExportPath, found]
    rcases createExporter_cases (outputsOf hash dir call.filename) .auto with selected | selected
    · rw [selected] at present ⊢
      have present : done.outputs.jsonl.isSome = true := present
      rw [if_pos present]
      rfl
    · rw [selected] at other ⊢
      -- detection takes the vector file only where there is no JSONL file
      have absent : (outputsOf hash dir call.filename).jsonl.isSome = false := by
        rw [createExporter] at selected
        split at selected
        next => cases selected
        next without => exact Bool.eq_false_iff.mpr without
      have same : done.outputs.jsonl = (outputsOf hash dir call.filename).jsonl :=
        other .jsonl FileFormat.noConfusion
      rw [same, absent]
      rfl

theorem file_ne_sidecar (artifact : Artifact) : artifact.file ≠ artifact.sidecar := by
  intro same
  have length := congrArg (fun file => file.toList.length) same
  simp [Artifact.sidecar, sidecarPathFor] at length

/-! ### What one call does -/

theorem Meets.other_file (meets : Meets crates exports growing dir call) {other : Artifact}
    (member : other ∈ exports) (different : other ≠ call.artifact dir) :
    other.file ≠ (call.artifact dir).file ∧ other.file ≠ (call.artifact dir).sidecar :=
  ⟨fun same => different (Artifact.file_inj same),
    fun same => (meets.apart other member different).2 (clashes_iff.mpr same)⟩

theorem Meets.other_sidecar (meets : Meets crates exports growing dir call) {other : Artifact}
    (member : other ∈ exports) (different : other ≠ call.artifact dir) :
    other.sidecar ≠ (call.artifact dir).file ∧ other.sidecar ≠ (call.artifact dir).sidecar :=
  ⟨fun same => (meets.apart other member different).1 (clashes_iff.mpr same.symm),
    fun same => different (Artifact.sidecar_inj same)⟩

theorem last_of_file (artifact : Artifact) :
    artifact.file.toList.getLast? ≠ some 'k' ∧ artifact.file.toList.getLast? ≠ some 'p' := by
  rw [getLast?_file]
  cases artifact.format with
  | jsonl => decide
  | vector => decide

/-- A call that could not create the directory changes nothing. -/
theorem exportResults_failed {reason : String} (failed : call.env.call.directoryError = some reason) :
    ∃ message, exportResults crates pretty hash dir call = (.failed message, dir) := by
  rw [exportResults, processCall, processResults, failed]
  exact ⟨_, rfl⟩

/-- A call that exports every item. -/
theorem exportResults_meets (flat : ∀ value, newline ∉ utf8 (crates.toString value))
    (among : growing ⊆ exports) (sound : ∀ artifact ∈ growing, Appendable artifact.format (dir artifact.file))
    (meets : Meets crates exports growing dir call) :
    Honest pretty exports dir call (exportResults crates pretty hash dir call).1
        (exportResults crates pretty hash dir call).2 ∧
      ∀ artifact ∈ growing,
        Appendable artifact.format ((exportResults crates pretty hash dir call).2 artifact.file) := by
  cases created : call.env.call.directoryError with
  | some reason =>
    obtain ⟨message, failed⟩ := @exportResults_failed crates pretty hash dir call reason created
    rw [failed]
    refine ⟨⟨?_, fun _ _ _ => ⟨rfl, rfl⟩⟩, sound⟩
    intro documents file skipped answered
    cases answered
  | none =>
    have whole := meets.whole created
    obtain ⟨done, returned, exported⟩ := @processCall_exports crates hash dir call flat
      (sound _ meets.known) created whole
    -- the own file, and what stays as it was
    have own := @exported_file hash dir call done (call.artifact dir).format
    have before := @of_outputsOf hash dir call.filename (call.artifact dir).format
    have named : Artifact.mk call.filename.name (call.artifact dir).format = call.artifact dir := rfl
    rw [named] at own before
    rw [exportResults, returned]
    dsimp only
    rw [resolveExportPath_exported exported, whole.sidecar]
    have beside {candidate : String} (apart : candidate ≠ (call.artifact dir).sidecar) :
        writeProvenanceSidecar pretty .written (call.artifact dir).file call.format call.results.length
          (Mcp.exported hash dir call done) candidate = Mcp.exported hash dir call done candidate :=
      writeProvenanceSidecar_frame pretty apart
    have file := beside (file_ne_sidecar (call.artifact dir))
    rw [own] at file
    have others : ∀ other ∈ exports, other ≠ call.artifact dir →
        writeProvenanceSidecar pretty .written (call.artifact dir).file call.format call.results.length
            (Mcp.exported hash dir call done) other.file = dir other.file ∧
          writeProvenanceSidecar pretty .written (call.artifact dir).file call.format call.results.length
            (Mcp.exported hash dir call done) other.sidecar = dir other.sidecar := by
      intro other member different
      obtain ⟨apart, unlike⟩ := meets.other_file member different
      obtain ⟨sidecarApart, sidecarUnlike⟩ := meets.other_sidecar member different
      rw [beside unlike, beside sidecarUnlike]
      refine ⟨exported_other exported apart (last_of_file other).1 (last_of_file other).2, ?_⟩
      exact exported_other exported sidecarApart (by simp [getLast?_sidecar]) (by simp [getLast?_sidecar])
    refine ⟨⟨?_, others⟩, ?_⟩
    · intro documents path skipped answered
      cases answered
      refine ⟨call.artifact dir, rfl, rfl, ?_, ?_, Function.update_self _ _ _⟩
      · rw [file]
        exact exported.present
      · rw [file, ← before]
        exact exported.adds
    · intro artifact member
      by_cases different : artifact = call.artifact dir
      · rw [different, file]
        exact exported.appendable
      · rw [(others artifact (among member) different).1]
        exact sound artifact member

/-! ### Runs -/

/-- In a run of calls that each export every result, under names that no sidecar has, every answer
tells what its call did, and no call touches the export of another one. -/
theorem export_answers_honest (flat : ∀ value, newline ∉ utf8 (crates.toString value))
    (among : growing ⊆ exports) {start : Directory}
    (sound : ∀ artifact ∈ growing, Appendable artifact.format (start artifact.file))
    (reached : Reachable (fun dir call after => (exportResults crates pretty hash dir call).2 = after)
      (Meets crates exports growing) start dir) (meets : Meets crates exports growing dir call) :
    Honest pretty exports dir call (exportResults crates pretty hash dir call).1
      (exportResults crates pretty hash dir call).2 := by
  have sound := reached.invariant (motive := fun dir => ∀ artifact ∈ growing,
    Appendable artifact.format (dir artifact.file)) sound (by
      rintro dir call after sound meets rfl
      exact (exportResults_meets flat among sound meets).2)
  exact (exportResults_meets flat among sound meets).1

/-! Two pages are exported to both formats of an empty directory, one call after the other. A page
that comes twice is counted twice, one without content leaves no file, and a vector file may have the
name of a sidecar. -/

namespace Pages

open VectorSession.Price (plainSerde)

def writer : ExportCrates := { PlainCrates.knowing [] with toString := plainSerde.toString }

theorem writer_flat (value : Json) : newline ∉ utf8 (writer.toString value) := by
  intro member
  rw [utf8_eq] at member
  obtain ⟨c, inside, byte⟩ := List.mem_flatMap.mp member
  have same := Subslice.toNat_of_mem_encodeChar (by decide) byte
  have text : (writer.toString value).toList =
      JsonText.compact (fun bits => "0.".toList ++ Nat.toDigits 10 bits.toNat) value := String.toList_ofList
  rw [text] at inside
  have written (bits : UInt64) : ∀ c ∈ "0.".toList ++ Nat.toDigits 10 bits.toNat, 0x20 ≤ c.toNat := by
    intro c member
    rcases List.mem_append.mp member with start | digit
    · exact JsonText.printable_name "0." (by decide) c start
    · exact JsonText.printable_of_isDigit (Nat.isDigit_of_mem_toDigits (by decide) (by decide) digit)
  have printable := JsonText.printable_compact written value c inside
  rw [same] at printable
  exact absurd printable (by decide)

def compactBody (body : Json) : Bytes := utf8 (plainSerde.toString body)

def noHash (_ : String) : UInt64 := 0

def pages : SanitizedFilename := ⟨"pages", by decide⟩

def item (url content : String) : ScrapedContent × ItemEnv :=
  (PlainCrates.page url content, PlainCrates.itemEnv 0)

def first : ScrapedContent × ItemEnv := item "https://a.test/1" "a"

def second : ScrapedContent × ItemEnv := item "https://a.test/2" "b"

def exporting (results : List (ScrapedContent × ItemEnv)) (format : ExportFormat) : ExportCall where
  results
  outputDir := "out"
  format
  filename := pages
  env := { call := { fallbackRunId := "run" } }

def empty : Directory := fun _ => none

def both : Set Artifact := {⟨"pages", .jsonl⟩, ⟨"pages", .vector⟩}

def leaves (dir : Directory) (call : ExportCall) : Directory :=
  (exportResults writer compactBody noHash dir call).2

def lines : ExportCall := exporting [first, second] .jsonl

def document : ExportCall := exporting [first] .vector

theorem apart (a b : Artifact) (one : a ∈ both) (other : b ∈ both) : ¬ Clashes a b := by
  rintro ⟨-, same⟩
  rcases one with rfl | rfl <;> rcases other with rfl | rfl <;> exact absurd same (by decide)

theorem itemFits_first : ItemFits writer first where
  valid := rfl
  healthy := rfl

theorem itemFits_second : ItemFits writer second where
  valid := rfl
  healthy := rfl

theorem meets_lines : Meets writer both both empty lines where
  known := .inl rfl
  apart other member _ := ⟨apart _ _ (.inl rfl) member, apart _ _ member (.inl rfl)⟩
  whole _ := {
    distinct := by decide
    fits := by
      intro item member
      rcases List.mem_pair.mp member with rfl | rfl
      · exact itemFits_first
      · exact itemFits_second
    sidecar := rfl
    present := nofun
    scans := nofun }

theorem vector_untouched : leaves empty lines "pages.json" = none := by decide

theorem meets_document : Meets writer both both (leaves empty lines) document where
  known := .inr rfl
  apart other member _ := ⟨apart _ _ (.inr rfl) member, apart _ _ member (.inr rfl)⟩
  whole _ := {
    distinct := by decide
    fits item member := List.mem_singleton.mp member ▸ itemFits_first
    sidecar := rfl
    present := nofun
    scans := by
      intro _ item rest same front back documents view
      have absent : outputBytes (leaves empty lines (document.artifact (leaves empty lines)).file) = [] :=
        congrArg outputBytes vector_untouched
      rw [absent] at view ⊢
      cases view with
      | empty none =>
        refine ⟨by decide, rfl, fun n positive within => ?_⟩
        have one : n < 1 := within
        omega
      | listed more split =>
        exact absurd (List.append_eq_nil_iff.mp split.symm).2 (by decide) }

theorem two_formats_honest : Honest compactBody both (leaves empty lines) document
    (exportResults writer compactBody noHash (leaves empty lines) document).1
    (exportResults writer compactBody noHash (leaves empty lines) document).2 := by
  have sound : ∀ artifact ∈ both, Appendable artifact.format (empty artifact.file) := by
    rintro artifact (rfl | rfl)
    · exact fun tooLong => absurd tooLong.1 (by decide)
    · exact ⟨[], fun createdAt => ⟨_, _, .empty rfl⟩⟩
  exact export_answers_honest writer_flat Set.Subset.rfl sound (.step .start meets_lines rfl) meets_document

def repeated : ExportCall := exporting [first, first] .jsonl

def blank : ExportCall := exporting [item "https://a.test/1" ""] .jsonl

/-- A vector export with the name of the sidecar that the answer of `lines` mentions. -/
def aside : ExportCall := { document with filename := ⟨"pages.jsonl.provenance", by decide⟩ }

theorem lines_of_answer {dir : Directory} {call : ExportCall} {exports : Set Artifact} {documents : Nat}
    (honest : Honest compactBody exports dir call (exportResults writer compactBody noHash dir call).1
      (leaves dir call))
    (answered : (exportResults writer compactBody noHash dir call).1 = .exported documents "pages.jsonl" 0) :
    (leaves dir call "pages.jsonl").isSome = true ∧
      Adds .jsonl (dir "pages.jsonl") (leaves dir call "pages.jsonl") documents := by
  obtain ⟨artifact, -, file, present, adds, -⟩ := honest.success documents "pages.jsonl" 0 answered
  have same : artifact = ⟨"pages", .jsonl⟩ := Artifact.file_inj file
  rw [same] at adds
  exact ⟨present, adds⟩

theorem answers_dishonest :
    ¬ Honest compactBody both empty repeated (exportResults writer compactBody noHash empty repeated).1
        (leaves empty repeated) ∧
      ¬ Honest compactBody both empty blank (exportResults writer compactBody noHash empty blank).1
        (leaves empty blank) ∧
      ¬ Honest compactBody {aside.artifact empty} (leaves empty aside) lines
        (exportResults writer compactBody noHash (leaves empty aside) lines).1
        (leaves (leaves empty aside) lines) := by
  refine ⟨?_, ?_, ?_⟩
  · intro honest
    have answered : (exportResults writer compactBody noHash empty repeated).1 =
        .exported 2 "pages.jsonl" 0 := by decide +kernel
    obtain ⟨-, added, grown, two⟩ := lines_of_answer honest answered
    have one : (durableLines (leaves empty repeated "pages.jsonl")).length = 1 := by decide +kernel
    rw [grown, List.length_append, two] at one
    omega
  · intro honest
    have answered : (exportResults writer compactBody noHash empty blank).1 =
        .exported 1 "pages.jsonl" 0 := by decide +kernel
    have present := (lines_of_answer honest answered).1
    have absent : leaves empty blank "pages.jsonl" = none := by decide
    rw [absent] at present
    cases present
  · intro honest
    have kept := (honest.others (aside.artifact empty) rfl (by decide)).1
    have lost : leaves (leaves empty aside) lines "pages.jsonl.provenance.json" ≠
        leaves empty aside "pages.jsonl.provenance.json" := by decide +kernel
    exact lost kept

end Pages

end Webfang.Mcp
