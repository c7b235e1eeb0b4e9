import Webfang.Export.OutputRecords
import Webfang.Export.VectorDocuments

/-!
# The pages of an output file

An output file as the list of the pages that were appended to it, each once for every append,
in either format. An append that succeeds adds its page at the end and one that fails adds
none; the resume index of a JSONL file is read off the list and the torn tail, which the writer cuts
after the session has indexed the file.
-/
namespace Webfang.Export

open Library Domain Segments

/-! ### Hashes -/

variable {fromStr : String → Option Json}

/-- The hashes of a file: those of its terminated lines, and that of its torn tail. -/
theorem mem_hashes_split {bytes : Bytes} {hash : String} :
    hash ∈ (readJsonlChecksumIndex fromStr bytes).hashes ↔
      hash ∈ (readJsonlChecksumIndex fromStr (terminatedPrefix newline bytes)).hashes ∨
        lineChecksum fromStr (tornTail newline bytes) = some hash := by
  simp only [mem_readJsonlChecksumIndex]
  rw [segments_split]
  by_cases clean : tornTail newline bytes = []
  · have nothing : lineChecksum fromStr [] = none := rfl
    simp [clean, nothing]
  · simp [clean, or_and_right, exists_or]

/-- The hash of the torn tail, if it has one, is also on a line that was terminated. -/
def TailIsProven (fromStr : String → Option Json) (bytes : Bytes) : Prop :=
  ∀ hash, lineChecksum fromStr (tornTail newline bytes) = some hash →
    ∃ line ∈ segments newline (terminatedPrefix newline bytes),
      lineChecksum fromStr line = some hash

theorem hashes_eq_terminated_iff {bytes : Bytes} : (readJsonlChecksumIndex fromStr bytes).hashes =
        (readJsonlChecksumIndex fromStr (terminatedPrefix newline bytes)).hashes ↔
      TailIsProven fromStr bytes := by
  constructor
  · intro same hash torn
    have indexed := mem_hashes_split.mpr (.inr torn)
    rwa [same, mem_readJsonlChecksumIndex] at indexed
  · intro proven
    apply Std.ExtTreeSet.ext_mem
    intro hash
    rw [mem_hashes_split]
    constructor
    · rintro (terminated | torn)
      · exact terminated
      · exact mem_readJsonlChecksumIndex.mpr (proven hash torn)
    · exact .inl

/-- The session's index is that of the file the recovery leaves exactly when the recovery
refuses the file, or the torn tail carries no checksum that only it has. -/
theorem session_index_eq_recovered_iff (ctx : Option ResumeContext) (store : RecordStore) (io : Io)
    (file : StateFile) (bytes : Bytes) :
    (CommitSession.openSession fromStr ctx store io file (some bytes)).1.hashIndex =
        (readJsonlChecksumIndex fromStr (afterRecovery bytes)).hashes ↔
      TailTooLong bytes ∨ TailIsProven fromStr bytes := by
  have opened : (CommitSession.openSession fromStr ctx store io file (some bytes)).1.hashIndex =
      (readJsonlChecksumIndex fromStr bytes).hashes := rfl
  rw [opened]
  by_cases tooLong : TailTooLong bytes
  · simp [afterRecovery_of_tooLong tooLong, tooLong]
  · rw [afterRecovery_of_short tooLong, hashes_eq_terminated_iff]
    simp [tooLong]

/-! A crash that wrote a whole JSON object but not its newline. -/

namespace UnterminatedLine

def text : String := "\x7b\"checksum_sha256\":\"0a\"\x7d"

/-- The parser on the one line of the file. -/
def parseLine (line : String) : Option Json :=
  if line = text then some (.obj [("checksum_sha256", .str "0a")]) else none

def bytes : Bytes := text.toUTF8.data.toList

theorem bytes_short : ¬ TailTooLong bytes := fun tooLong => absurd tooLong.1 (by decide)

def session : CommitSession :=
  (CommitSession.openSession parseLine (some ⟨"run", true⟩) ⟨"example.com"⟩ {} .missing
    (some bytes)).1

end UnterminatedLine

open UnterminatedLine in
/-- The resume gate takes the hash of a line as proof of its flush, and the writer then
truncates that line away. -/
theorem unterminated_line_indexed :
    session.decide plainUrls "https://example.com/a" (some "0a") = .promoteFromFlushProof ∧
      afterRecovery bytes = [] ∧
      session.hashIndex ≠ (readJsonlChecksumIndex parseLine (afterRecovery bytes)).hashes := by
  have wiped : afterRecovery bytes = [] := by
    rw [afterRecovery_of_short bytes_short]
    decide
  refine ⟨by decide, wiped, ?_⟩
  intro same
  have indexed : "0a" ∈ session.hashIndex := by decide
  rw [same, wiped] at indexed
  exact absurd indexed (by decide)

/-! ### The pages -/

variable {crates : ExportCrates}

/-- A record of the page, under the stamps of some append, in a text that reads back. -/
structure Written (crates : ExportCrates) (result : ScrapedContent) (chunk : DocumentChunk) :
    Prop where
  stamped : ∃ stamp, chunk = DocumentChunk.fromScrapedContent crates result stamp
  text : Writable crates chunk
  nonempty : serializeLine crates chunk ≠ []

theorem Written.url_eq {result : ScrapedContent} {chunk : DocumentChunk}
    (written : Written crates result chunk) : chunk.url = result.url := by
  obtain ⟨stamp, rfl⟩ := written.stamped
  rfl

theorem Written.content_eq {result : ScrapedContent} {chunk : DocumentChunk}
    (written : Written crates result chunk) : chunk.content = result.content := by
  obtain ⟨stamp, rfl⟩ := written.stamped
  rfl

def jsonlLine (crates : ExportCrates) (chunk : DocumentChunk) : Bytes :=
  serializeLine crates chunk ++ [newline]

/-- The selected file holds the records of `chunks`, in order and nothing else that is whole. -/
def HoldsChunks (crates : ExportCrates) (exporter : Exporter) (outputs : Outputs)
    (chunks : List DocumentChunk) : Prop :=
  match exporter with
  | .jsonl _ => durableLines outputs.jsonl = chunks.map (jsonlLine crates)
  | .vector => VectorLists (outputBytes outputs.vector) (chunks.map (serializeDocument crates))

/-- The selected file holds one record for each entry of `appended`. -/
def Logs (crates : ExportCrates) (exporter : Exporter) (outputs : Outputs)
    (appended : List ScrapedContent) : Prop :=
  ∃ chunks, List.Forall₂ (Written crates) appended chunks ∧ HoldsChunks crates exporter outputs chunks

/-- Bytes of a line that was not finished. -/
def Torn (exporter : Exporter) (outputs : Outputs) : Prop :=
  match exporter with
  | .jsonl _ => tornBytes outputs.jsonl ≠ []
  | .vector => False

theorem SameFile.logs {a b : Exporter} (same : SameFile a b) {outputs : Outputs}
    {appended : List ScrapedContent} :
    Logs crates a outputs appended ↔ Logs crates b outputs appended := by
  cases a <;> cases b <;> first | exact Iff.rfl | exact same.elim

theorem SameFile.torn {a b : Exporter} (same : SameFile a b) {outputs : Outputs} :
    Torn a outputs ↔ Torn b outputs := by
  cases a <;> cases b <;> first | exact Iff.rfl | exact same.elim

theorem logs_empty (exporter : Exporter) : Logs crates exporter ⟨none, none⟩ [] := by
  refine ⟨[], .nil, ?_⟩
  cases exporter with
  | jsonl => rfl
  | vector => exact .inl ⟨rfl, rfl⟩

/-! ### One append -/

/-- A vector append meets a file it can cut and count, and does not fail behind the cut. -/
structure AppendGuard (outputs : Outputs) (appended : Nat) (env : AppendEnv) : Prop where
  early : FailsEarly env
  decodes : TailDecodes (outputBytes outputs.vector)
  room : appended + 1 < 10 ^ countFieldWidth

theorem export_logs {outputPath : String} {env : ItemEnv} {exporter exporter' : Exporter}
    {outputs outputs' : Outputs} {appended : List ScrapedContent}
    (logs : Logs crates exporter outputs appended) (fits : exporter.Fits outputs)
    (safe : exporter = .vector → AppendGuard outputs appended.length env.append)
    {page : ScrapedContent} {chunk : DocumentChunk} (written : Written crates page chunk)
    {result : Except ExporterError Unit}
    (returned : exporter.export crates outputPath env outputs chunk = (result, exporter', outputs')) :
    SameFile exporter exporter' ∧ exporter'.Fits outputs' ∧
      ((result = .ok () ∧ Logs crates exporter' outputs' (appended ++ [page]) ∧
          ¬ Torn exporter' outputs') ∨
        (result ≠ .ok () ∧ Logs crates exporter' outputs' appended)) := by
  obtain ⟨chunks, stamped, holds⟩ := logs
  have grown : List.Forall₂ (Written crates) (appended ++ [page]) (chunks ++ [chunk]) :=
    List.rel_append stamped (.cons written .nil)
  cases exporter with
  | jsonl writer =>
    -- a line more, or the lines that were there
    cases returned
    obtain ⟨stillFits, outcome⟩ := jsonlExport_spec crates outputPath env.append fits
      written.text.jsonl.newline_notMem rfl
    refine ⟨trivial, stillFits, ?_⟩
    obtain ⟨ok, clean, lines⟩ | ⟨failed, lines, -⟩ := outcome
    · refine .inl ⟨ok, ⟨chunks ++ [chunk], grown, ?_⟩, fun torn => torn clean⟩
      simp only [HoldsChunks] at holds ⊢
      rw [lines, holds]
      simp [jsonlLine]
    · refine .inr ⟨failed, chunks, stamped, ?_⟩
      simp only [HoldsChunks] at holds ⊢
      rw [lines, holds]
  | vector =>
    -- the document joins the list, whose count has to fit its field
    cases returned
    obtain ⟨early, decodes, room⟩ := safe rfl
    have sizes := stamped.length_eq
    refine ⟨trivial, trivial, ?_⟩
    obtain ⟨ok, lists⟩ | ⟨failed, same⟩ := vectorExport_lists crates early env.createdAt holds
      decodes (by rw [List.length_map]; omega) rfl
    · refine .inl ⟨ok, ⟨chunks ++ [chunk], grown, ?_⟩, not_false⟩
      simpa [HoldsChunks] using lists
    · refine .inr ⟨failed, chunks, stamped, ?_⟩
      simp only [HoldsChunks] at holds ⊢
      rw [same]
      exact holds

/-! ### Reading the list back -/

theorem exists_chunk {appended : List ScrapedContent} {chunks : List DocumentChunk}
    (stamped : List.Forall₂ (Written crates) appended chunks) {page : ScrapedContent}
    (listed : page ∈ appended) : ∃ chunk ∈ chunks, Written crates page chunk := by
  induction stamped with
  | nil => cases listed
  | cons written _ ih =>
    obtain rfl | later := List.mem_cons.mp listed
    · exact ⟨_, List.mem_cons_self, written⟩
    · obtain ⟨chunk, member, found⟩ := ih later
      exact ⟨chunk, List.mem_cons_of_mem _ member, found⟩

theorem exists_page {appended : List ScrapedContent} {chunks : List DocumentChunk}
    (stamped : List.Forall₂ (Written crates) appended chunks) {chunk : DocumentChunk}
    (listed : chunk ∈ chunks) : ∃ page ∈ appended, Written crates page chunk := by
  induction stamped with
  | nil => cases listed
  | cons written _ ih =>
    obtain rfl | later := List.mem_cons.mp listed
    · exact ⟨_, List.mem_cons_self, written⟩
    · obtain ⟨page, member, found⟩ := ih later
      exact ⟨page, List.mem_cons_of_mem _ member, found⟩

theorem Logs.hasRecord {exporter : Exporter} {outputs : Outputs} {appended : List ScrapedContent}
    (logs : Logs crates exporter outputs appended) {page : ScrapedContent} (listed : page ∈ appended) :
    HasRecord crates exporter outputs page.url (contentHash crates page) := by
  obtain ⟨chunks, stamped, holds⟩ := logs
  obtain ⟨chunk, member, written⟩ := exists_chunk stamped listed
  have named : (chunk.url, crates.sha256Hex chunk.content) = (page.url, contentHash crates page) := by
    rw [written.url_eq, written.content_eq]
    rfl
  cases exporter with
  | jsonl =>
    refine ⟨jsonlLine crates chunk, ?_, ?_⟩
    · simp only [HoldsChunks] at holds
      rw [holds]
      exact List.mem_map_of_mem member
    · rw [jsonlLine, readLine_serializeLine written.text.jsonl, named]
  | vector =>
    refine ⟨serializeDocument crates chunk, ?_, ?_⟩
    · have flat : ∀ document ∈ chunks.map (serializeDocument crates), newline ∉ document := by
        intro document documented
        obtain ⟨other, otherListed, rfl⟩ := List.mem_map.mp documented
        obtain ⟨_, -, otherWritten⟩ := exists_page stamped otherListed
        exact otherWritten.text.vector.newline_notMem
      -- a file with documents is in the layout of the exporter
      obtain ⟨none, -⟩ | ⟨-, createdAt, bytes⟩ := holds
      · rw [List.map_eq_nil_iff.mp none] at member
        cases member
      · rw [bytes, vectorOpened, List.append_assoc]
        exact holdsDocument_body (newline_notMem_headerOf _ createdAt) flat
          (List.mem_map_of_mem member) closing
    · rw [readDocument_serializeDocument written.text.vector, named]

theorem lineChecksum_jsonlLine {page : ScrapedContent} {chunk : DocumentChunk}
    (written : Written crates page chunk) :
    lineChecksum crates.fromStr (jsonlLine crates chunk) = some (contentHash crates page) := by
  have text := written.text.jsonl
  have stripped : stripTerminator (jsonlLine crates chunk) = serializeLine crates chunk :=
    stripTerminator_line text.printable
  have checksum : (jsonlValue crates chunk).get checksumField =
      some (.str (crates.sha256Hex chunk.content)) := rfl
  simp only [lineChecksum, stripped, if_neg written.nonempty]
  rw [serializeLine, fromUtf8_utf8, Option.bind_some, text.roundTrip, Option.bind_some, checksum,
    written.content_eq]
  rfl

/-- The index a session builds from a JSONL file of these pages. -/
theorem mem_hashIndex_iff {writer : JsonlWriter} {outputs : Outputs} {appended : List ScrapedContent}
    (logs : Logs crates (.jsonl writer) outputs appended) {hash : String} :
    hash ∈ (buildContentHashIndex crates.fromStr outputs.jsonl).hashes ↔
      (∃ page ∈ appended, contentHash crates page = hash) ∨
        lineChecksum crates.fromStr (tornBytes outputs.jsonl) = some hash := by
  have built : (buildContentHashIndex crates.fromStr outputs.jsonl).hashes =
      (readJsonlChecksumIndex crates.fromStr (outputBytes outputs.jsonl)).hashes := by
    cases outputs.jsonl <;> rfl
  obtain ⟨chunks, stamped, holds⟩ := logs
  have lines : segments newline (terminatedPrefix newline (outputBytes outputs.jsonl)) =
      chunks.map (jsonlLine crates) := holds
  rw [built, mem_hashes_split, mem_readJsonlChecksumIndex, lines]
  refine or_congr_left ?_
  constructor
  · rintro ⟨line, listed, carries⟩
    obtain ⟨chunk, member, rfl⟩ := List.mem_map.mp listed
    obtain ⟨page, pageListed, written⟩ := exists_page stamped member
    rw [lineChecksum_jsonlLine written] at carries
    exact ⟨page, pageListed, Option.some.inj carries⟩
  · rintro ⟨page, listed, rfl⟩
    obtain ⟨chunk, member, written⟩ := exists_chunk stamped listed
    exact ⟨_, List.mem_map_of_mem member, lineChecksum_jsonlLine written⟩

/-- With no torn tail the lines are the whole file. -/
theorem HoldsChunks.jsonl_bytes {writer : JsonlWriter} {outputs : Outputs}
    {chunks : List DocumentChunk} (holds : HoldsChunks crates (.jsonl writer) outputs chunks)
    (clean : ¬ Torn (.jsonl writer) outputs) :
    outputBytes outputs.jsonl = (chunks.map (jsonlLine crates)).flatten := by
  have whole := terminatedPrefix_append_tornTail newline (outputBytes outputs.jsonl)
  have nothing : tornTail newline (outputBytes outputs.jsonl) = [] := not_not.mp clean
  have lines : segments newline (terminatedPrefix newline (outputBytes outputs.jsonl)) =
      chunks.map (jsonlLine crates) := holds
  rw [← lines, segments_flatten]
  simpa [nothing] using whole.symm

end Webfang.Export
