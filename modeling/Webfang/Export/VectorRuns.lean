import Webfang.Export.VectorFile
import Webfang.Library.Transition

/-!
# Vector files over runs

One exporter after the other appends to one file. As long as each append finds the start of its
last 256 bytes at a character boundary, the file is after every call one JSON object with all the
documents in order and their number. An append that finds it inside a character cuts the file
elsewhere.
-/
namespace Webfang.Export

open Library

/-! ### What a file holds -/

/-- A document, and the dimensions that its exporter had recorded before it. -/
structure ExportedChunk where
  document : EmbeddedChunk
  recorded : Option Nat

/-- The document as it is written: without an embedding of other dimensions. -/
def ExportedChunk.stored (exported : ExportedChunk) : EmbeddedChunk :=
  match exported.recorded, exported.document.embeddings with
  | some expected, some components =>
    if components.length ≠ expected then exported.document.withoutEmbeddings else exported.document
  | _, _ => exported.document

def EmbeddedChunk.json (serde : SerdeJson) (document : EmbeddedChunk) : String :=
  serde.toString (document.value serde)

/-- The documents of a closed file; a missing or empty file has none. -/
def VectorHolds (bytes : Bytes) (texts : List String) : Prop :=
  (texts = [] ∧ bytes = []) ∨
    (texts ≠ [] ∧ texts.length < 10 ^ countFieldWidth ∧
      ∃ header : VectorHeader, bytes = header.opened texts.length texts ++ closing)

/-- The bytes in which the bracket is looked for start at a character. -/
def BoundaryScan (bytes : Bytes) : Prop :=
  Subslice.AtBoundary (bytes.length - bracketScanBytes) bytes

instance (bytes : Bytes) : Decidable (BoundaryScan bytes) :=
  inferInstanceAs (Decidable (Subslice.AtBoundary _ _))

theorem truncateAtBracket_opened {header : VectorHeader} {count : Nat} {texts : List String}
    (boundary : BoundaryScan (header.opened count texts ++ closing)) :
    truncateAtBracket (header.opened count texts ++ closing) = header.opened count texts := by
  apply truncateAtBracket_closing
  rw [BoundaryScan, ← header.encodeChars_fileChars] at boundary
  rw [bracketWindow, ← header.encodeChars_fileChars]
  exact Subslice.fromUtf8Lossy_drop boundary

theorem opened_ne_nil (header : VectorHeader) (count : Nat) (texts : List String) :
    header.opened count texts ≠ [] := by
  have marker : documentsMarker ≠ [] := by decide
  simp [VectorHeader.opened, marker]

/-- `serde_json::to_string` writes a text of the value; a component that is no number has
none. -/
def SerdeJson.Spelled (serde : SerdeJson) (double : List Char → UInt64) : Prop :=
  ∀ document : EmbeddedChunk, document.Finite →
    JsonText.Spells double (.value (document.value serde)) (document.json serde).toList

/-- The file is one JSON object with these documents in order and their number; without any
document there is no file, or an empty one. -/
def ObjectOf (serde : SerdeJson) (double : List Char → UInt64) (file : Option Bytes)
    (exported : List ExportedChunk) : Prop :=
  (exported = [] ∧ outputBytes file = []) ∨
    ∃ (text : String) (v : Json), outputBytes file = utf8 text ∧
      JsonText.Spells double (.value v) text.toList ∧
      v.get "documents" = some (.arr (exported.map fun e => e.stored.value serde)) ∧
      v.get "total_documents" = some (.int exported.length)

/-! ### The loop over the documents -/

namespace VectorExporter

variable {serde : SerdeJson} {exporter exporter' : VectorExporter}

def learn (exporter : VectorExporter) (document : EmbeddedChunk) : VectorExporter :=
  ⟨exporter.dimensions.or (document.embeddings.map List.length)⟩

/-- The documents of a call with what the exporter had recorded before each. -/
def entries : VectorExporter → List EmbeddedChunk → List ExportedChunk
  | _, [] => []
  | exporter, document :: rest =>
    ⟨document, exporter.dimensions⟩ :: entries (exporter.learn document) rest

theorem length_entries (exporter : VectorExporter) (documents : List EmbeddedChunk) :
    (exporter.entries documents).length = documents.length := by
  induction documents generalizing exporter with
  | nil => rfl
  | cons document rest ih => rw [entries, List.length_cons, List.length_cons, ih]

theorem serializeWhole_ok {document : EmbeddedChunk} {components : List UInt32} {text : Bytes}
    (embedded : document.embeddings = some components)
    (written : serializeWhole serde document components = .ok text) :
    text = document.text serde ∧ document.Finite := by
  rw [serializeWhole] at written
  split at written
  next => cases written
  next finite =>
    cases written
    refine ⟨rfl, ?_⟩
    rintro listed same bits member
    rw [embedded] at same
    cases same
    simpa using List.any_eq_false.mp (Bool.eq_false_iff.mpr finite) bits member

theorem serializeDocument_ok {document : EmbeddedChunk} {text : Bytes}
    (written : exporter.serializeDocument serde document = (.ok text, exporter')) :
    text = (ExportedChunk.stored ⟨document, exporter.dimensions⟩).text serde ∧
      (ExportedChunk.stored ⟨document, exporter.dimensions⟩).Finite ∧
      exporter' = exporter.learn document := by
  obtain ⟨dimensions⟩ := exporter
  rw [serializeDocument] at written
  simp only [ExportedChunk.stored, learn]
  cases embedded : document.embeddings with
  | none =>
    simp only [embedded, Prod.mk.injEq, Except.ok.injEq] at written
    obtain ⟨rfl, rfl⟩ := written
    have finite : document.Finite := by simp [EmbeddedChunk.Finite, embedded]
    cases dimensions <;> exact ⟨rfl, finite, by simp⟩
  | some components =>
    rw [embedded] at written
    cases dimensions with
    | none =>
      simp only [Prod.mk.injEq] at written
      obtain ⟨whole, rfl⟩ := written
      obtain ⟨rfl, finite⟩ := serializeWhole_ok embedded whole
      exact ⟨rfl, finite, by simp⟩
    | some expected =>
      dsimp only at written ⊢
      split at written
      next other =>
        simp only [Prod.mk.injEq, Except.ok.injEq] at written
        obtain ⟨rfl, rfl⟩ := written
        rw [if_pos other]
        refine ⟨rfl, ?_, by simp⟩
        rintro stored ⟨⟩
      next agrees =>
        simp only [Prod.mk.injEq] at written
        obtain ⟨whole, rfl⟩ := written
        obtain ⟨rfl, finite⟩ := serializeWhole_ok embedded whole
        rw [if_neg agrees]
        exact ⟨rfl, finite, by simp⟩

/-- The text of a loop that ended well goes behind the documents there are. -/
theorem writeDocuments_ok {separated : Bool} {old : List Bytes} {documents : List EmbeddedChunk}
    (first : separated = true ↔ old ≠ [])
    (ended : (writeDocuments serde exporter separated documents).result = .ok ()) :
    vectorBody (old ++ (exporter.entries documents).map fun e => e.stored.text serde) =
        vectorBody old ++ (writeDocuments serde exporter separated documents).text ∧
      (∀ e ∈ exporter.entries documents, e.stored.Finite) ∧
      (writeDocuments serde exporter separated documents).exporter = documents.foldl learn exporter := by
  induction documents generalizing exporter separated old with
  | nil =>
    refine ⟨?_, nofun, rfl⟩
    simp [entries, writeDocuments]
  | cons document rest ih =>
    rw [writeDocuments] at ended ⊢
    dsimp only at ended ⊢
    split at ended
    next => cases ended
    next text after written =>
      obtain ⟨rfl, finite, rfl⟩ := serializeDocument_ok written
      obtain ⟨body, finiteRest, learned⟩ := @ih _ _ (old ++ [(ExportedChunk.stored ⟨document, exporter.dimensions⟩).text serde]) (by simp) ended
      have line : vectorBody (old ++ [(ExportedChunk.stored ⟨document, exporter.dimensions⟩).text serde]) =
          vectorBody old ++ ((if separated = true then [comma] else []) ++
            ((ExportedChunk.stored ⟨document, exporter.dimensions⟩).text serde ++ [newline])) := by
        by_cases more : old = []
        · rw [if_neg (fun set => first.mp set more), more]
          simp [vectorBody]
        · rw [if_pos (first.mpr more), vectorBody_concat more]
          rfl
      refine ⟨?_, ?_, learned⟩
      · rw [line] at body
        simpa [entries] using body
      · intro e member
        rcases List.mem_cons.mp member with rfl | later
        · exact finite
        · exact finiteRest e later

theorem exporter_of_ended {separated : Bool} {documents : List EmbeddedChunk}
    (ended : (writeDocuments serde exporter separated documents).result = .ok ()) :
    (writeDocuments serde exporter separated documents).exporter = documents.foldl learn exporter := by
  have first : separated = true ↔ (if separated then [[]] else [] : List Bytes) ≠ [] := by
    cases separated <;> simp
  exact (writeDocuments_ok first ended).2.2

theorem ended_of_finish {written : Written} {bytes : Bytes} {total : Nat}
    (returned : (finish written bytes total).result = .ok ()) : written.result = .ok () := by
  rw [finish] at returned
  split at returned
  next => cases returned
  next ended => exact ended

/-! ### One call -/

/-- The texts of documents as they are written. -/
def textsOf (serde : SerdeJson) (exported : List ExportedChunk) : List String :=
  exported.map fun e => e.stored.json serde

theorem map_utf8_textsOf (exported : List ExportedChunk) :
    (textsOf serde exported).map utf8 = exported.map fun e => e.stored.text serde := by
  rw [textsOf, List.map_map]
  rfl

theorem fits_of_patchHeader {bytes left : Bytes} {total : Nat}
    (patched : exporter.patchHeader bytes total = (.ok (), left)) :
    ∀ n, exporter.dimensions = some n → n < 10 ^ dimFieldWidth := by
  intro n known
  rw [patchHeader] at patched
  split at patched
  next => cases patched
  next =>
    rw [known] at patched
    exact (length_dimensionsField_iff (some n)).mp (fits_of_patchHeaderField patched) n rfl

/-- A file ready for more documents holds the old ones under a header with some count. -/
structure Ready (bytes : Bytes) (existing : Option Nat) (old : List String) : Prop where
  known : existing.isSome = true ↔ old.map utf8 ≠ []
  count : existing.getD 0 = old.length
  layout : ∃ (header : VectorHeader) (count : Nat), count < 10 ^ countFieldWidth ∧
    bytes = header.opened count old

theorem openForDocuments_holds {createdAt : Timestamp} {file : Option Bytes} {old : List String}
    (holds : VectorHolds (outputBytes file) old) (boundary : BoundaryScan (outputBytes file))
    (room : ∀ n, exporter.dimensions = some n → n < 10 ^ dimFieldWidth) :
    ∃ existing bytes, exporter.openForDocuments (utf8 createdAt.text) file = .ok (existing, bytes) ∧
      Ready bytes existing old := by
  rw [openForDocuments, openForAppend_eq]
  rcases holds with ⟨rfl, empty⟩ | ⟨more, small, header, closed⟩
  · rw [empty]
    refine ⟨none, exporter.buildHeaderLine (utf8 createdAt.text), if_pos truncateAtBracket_nil, ?_⟩
    refine ⟨by simp, rfl, ⟨exporter.dimensions, createdAt, room⟩, 0, by decide, ?_⟩
    simp [VectorHeader.opened, VectorHeader.line, buildHeaderLine, vectorBody]
  · rw [closed] at boundary ⊢
    have positive : 0 < old.length := List.length_pos_iff.mpr more
    rw [truncateAtBracket_opened boundary, if_neg (opened_ne_nil header _ _), VectorHeader.opened,
      VectorHeader.readAppendState_line exporter positive small]
    exact ⟨some old.length, _, rfl, by simp [more], rfl, header, old.length, small, rfl⟩

theorem finish_ok {written : Written} {bytes : Bytes} {total : Nat} {existing : Option Nat}
    {old texts : List String} (ready : Ready bytes existing old) (more : old ++ texts ≠ [])
    (body : vectorBody ((old ++ texts).map utf8) = vectorBody (old.map utf8) ++ written.text)
    (counted : total = (old ++ texts).length)
    (returned : (finish written bytes total).result = .ok ()) :
    VectorHolds (outputBytes (finish written bytes total).file) (old ++ texts) ∧
      (finish written bytes total).exporter = written.exporter := by
  obtain ⟨header, count, room, rfl⟩ := ready.layout
  rw [finish] at returned ⊢
  split at returned
  next => cases returned
  next ended =>
    cases patched : written.exporter.patchHeader (header.opened count old ++ written.text ++ closing) total
      with
    | mk result left =>
      rw [patched] at returned
      cases returned
      have whole : header.opened count old ++ written.text ++ closing =
          header.line count ++ (documentsMarker ++ vectorBody ((old ++ texts).map utf8) ++ closing) := by
        rw [body]
        simp [VectorHeader.opened]
      rw [whole] at patched
      obtain ⟨roomTotal, header', rfl, -⟩ := VectorHeader.patchHeader_line room patched
      subst counted
      refine ⟨.inr ⟨more, roomTotal, header', ?_⟩, rfl⟩
      simp [outputBytes, VectorHeader.opened]

theorem foldl_learn (exporter : VectorExporter) (documents : List EmbeddedChunk) {n : Nat}
    (known : exporter.dimensions = some n) : (documents.foldl learn exporter).dimensions = some n := by
  induction documents generalizing exporter with
  | nil => exact known
  | cons document rest ih => exact ih _ (by simp [learn, known])

/-- A call that succeeds has dimensions that fit, so those before it fitted. -/
theorem room_of_finish {written : Written} {bytes : Bytes} {total : Nat}
    (kept : ∀ n, exporter.dimensions = some n → written.exporter.dimensions = some n)
    (returned : (finish written bytes total).result = .ok ()) :
    ∀ n, exporter.dimensions = some n → n < 10 ^ dimFieldWidth := by
  intro n known
  rw [finish] at returned
  split at returned
  next => cases returned
  next =>
    cases patched : written.exporter.patchHeader (bytes ++ written.text ++ closing) total with
    | mk result left =>
      rw [patched] at returned
      cases returned
      exact fits_of_patchHeader patched n (kept n known)

theorem room_of_batch {separated : Bool} {documents : List EmbeddedChunk} {bytes : Bytes} {total : Nat}
    (returned : (finish (writeDocuments serde exporter separated documents) bytes total).result = .ok ()) :
    ∀ n, exporter.dimensions = some n → n < 10 ^ dimFieldWidth := by
  apply room_of_finish _ returned
  intro n known
  rw [exporter_of_ended (ended_of_finish returned)]
  exact foldl_learn exporter documents known

variable {createdAt : Timestamp} {file : Option Bytes} {old : List String}

theorem exportBatch_ok {documents : List EmbeddedChunk} (holds : VectorHolds (outputBytes file) old)
    (boundary : BoundaryScan (outputBytes file)) (nonempty : documents ≠ [])
    (returned : (exporter.exportBatch serde (utf8 createdAt.text) file documents).result = .ok ()) :
    VectorHolds (outputBytes (exporter.exportBatch serde (utf8 createdAt.text) file documents).file)
        (old ++ textsOf serde (exporter.entries documents)) ∧
      (∀ e ∈ exporter.entries documents, e.stored.Finite) := by
  rw [exportBatch, if_neg nonempty] at returned ⊢
  split at returned
  next => cases returned
  next existing bytes opened =>
    have ended := ended_of_finish returned
    have room := room_of_batch returned
    obtain ⟨_, _, same, ready⟩ := openForDocuments_holds holds boundary room
    rw [opened] at same
    cases same
    obtain ⟨body, finite, -⟩ := writeDocuments_ok ready.known ended
    have more : old ++ textsOf serde (exporter.entries documents) ≠ [] := by
      cases documents with
      | nil => exact absurd rfl nonempty
      | cons document rest => simp [entries, textsOf]
    refine ⟨(finish_ok ready more ?_ ?_ returned).1, finite⟩
    · rw [List.map_append, map_utf8_textsOf, body]
    · rw [ready.count, List.length_append, textsOf, List.length_map, length_entries]

theorem exportDocument_eq_exportBatch {createdAt : Bytes} {document : EmbeddedChunk}
    (returned : (exporter.exportDocument serde createdAt file document).result = .ok ()) :
    exporter.exportDocument serde createdAt file document =
      exporter.exportBatch serde createdAt file [document] := by
  rw [exportDocument] at returned ⊢
  rw [exportBatch, if_neg (List.cons_ne_nil document [])]
  split at returned
  next => cases returned
  next existing bytes opened =>
    cases serialized : exporter.serializeDocument serde document with
    | mk result after =>
      cases result with
      | error e =>
        rw [serialized] at returned
        cases returned
      | ok text =>
        have written : writeDocuments serde exporter existing.isSome [document] =
            ⟨(if existing.isSome then [comma] else []) ++ (text ++ [newline]), after, .ok ()⟩ := by
          rw [writeDocuments, serialized]
          simp [writeDocuments]
        dsimp only
        rw [written]
        rfl

end VectorExporter

theorem SerdeJson.Spelled.texts {serde : SerdeJson} {double : List Char → UInt64}
    (spelled : serde.Spelled double) {exported : List ExportedChunk}
    (finite : ∀ e ∈ exported, e.stored.Finite) :
    List.Forall₂ (fun v text => JsonText.Spells double (.value v) text.toList)
      (exported.map fun e => e.stored.value serde) (VectorExporter.textsOf serde exported) := by
  rw [VectorExporter.textsOf, List.forall₂_map_left_iff, List.forall₂_map_right_iff, List.forall₂_same]
  exact fun e member => spelled e.stored (finite e member)

theorem VectorHeader.spells_closed {serde : SerdeJson} {double : List Char → UInt64}
    (spelled : serde.Spelled double) (header : VectorHeader) {exported : List ExportedChunk}
    (finite : ∀ e ∈ exported, e.stored.Finite) {bytes : Bytes}
    (closed : bytes = header.opened (VectorExporter.textsOf serde exported).length
      (VectorExporter.textsOf serde exported) ++ closing) :
    ∃ text : String, bytes = utf8 text ∧ JsonText.Spells double
      (.value (header.object (exported.map fun e => e.stored.value serde))) text.toList := by
  have object := @VectorHeader.spells_fileChars header _ _ _ (spelled.texts finite)
  have sizes : (exported.map fun e => e.stored.value serde).length =
      (VectorExporter.textsOf serde exported).length := by simp [VectorExporter.textsOf]
  rw [sizes] at object
  refine ⟨String.ofList (header.fileChars (VectorExporter.textsOf serde exported).length
    (VectorExporter.textsOf serde exported)), ?_, ?_⟩
  · rw [utf8_eq, String.toList_ofList, header.encodeChars_fileChars, closed]
  · rwa [String.toList_ofList]

theorem VectorHolds.object {serde : SerdeJson} {double : List Char → UInt64}
    (spelled : serde.Spelled double) {file : Option Bytes} {exported : List ExportedChunk}
    (holds : VectorHolds (outputBytes file) (VectorExporter.textsOf serde exported))
    (finite : ∀ e ∈ exported, e.stored.Finite) : ObjectOf serde double file exported := by
  rcases holds with ⟨none, empty⟩ | ⟨-, -, header, closed⟩
  · left
    exact ⟨List.map_eq_nil_iff.mp none, empty⟩
  · right
    obtain ⟨text, bytes, object⟩ := header.spells_closed spelled finite closed
    refine ⟨text, header.object (exported.map fun e => e.stored.value serde), bytes, object, ?_, ?_⟩
    · simp [Json.get, VectorHeader.object]
    · simp [Json.get, VectorHeader.object]

theorem zero_notMem_of_spelled {double : List Char → UInt64} {v : Json} {text : String}
    (spelled : JsonText.Spells double (.value v) text.toList) : 0 ∉ utf8 text := by
  rw [utf8_eq]
  refine Subslice.zero_notMem_encodeChars ?_
  intro c member none
  have allowed := spelled.allowed c member
  have same : c = '\x00' := Char.toNat_inj.mp none
  rw [same] at allowed
  exact absurd allowed (by decide)

theorem not_objectOf_of_zero {serde : SerdeJson} {double : List Char → UInt64} {file : Option Bytes}
    {exported : List ExportedChunk} (zero : 0 ∈ outputBytes file) :
    ¬ ObjectOf serde double file exported := by
  rintro (⟨-, empty⟩ | ⟨text, v, bytes, spelled, -⟩)
  · rw [empty] at zero
    cases zero
  · rw [bytes] at zero
    exact zero_notMem_of_spelled spelled zero

/-! ### Runs -/

/-- The exporter in use, the file, and all that was exported so far. -/
structure VectorSession where
  exporter : VectorExporter
  file : Option Bytes
  exported : List ExportedChunk

inductive VectorCall where
  /-- Another instance takes over. -/
  | renew
  | exportDocument (createdAt : Timestamp) (document : EmbeddedChunk)
  | exportBatch (createdAt : Timestamp) (documents : List EmbeddedChunk)

namespace VectorSession

open VectorExporter (textsOf)

/-- A call that returns `Ok`. -/
def returned (s : VectorSession) (documents : List EmbeddedChunk) (result : VectorExporter.Exported) :
    Option VectorSession :=
  match result.result with
  | .error _ => none
  | .ok () => some
    { exporter := result.exporter
      file := result.file
      exported := s.exported ++ s.exporter.entries documents }

def step (serde : SerdeJson) (s : VectorSession) : VectorCall → Option VectorSession
  | .renew => some { s with exporter := .new }
  | .exportDocument createdAt document =>
    s.returned [document] (s.exporter.exportDocument serde (utf8 createdAt.text) s.file document)
  | .exportBatch createdAt documents =>
    s.returned documents (s.exporter.exportBatch serde (utf8 createdAt.text) s.file documents)

/-- The scan of a call that opens the file starts at a character. -/
def Aligned (s : VectorSession) : VectorCall → Prop
  | .renew => True
  | .exportDocument .. => BoundaryScan (outputBytes s.file)
  | .exportBatch _ documents => documents ≠ [] → BoundaryScan (outputBytes s.file)

instance (s : VectorSession) (call : VectorCall) : Decidable (s.Aligned call) :=
  match call with
  | .renew => .isTrue trivial
  | .exportDocument .. => inferInstanceAs (Decidable (BoundaryScan _))
  | .exportBatch _ documents => inferInstanceAs (Decidable (documents ≠ [] → BoundaryScan _))

/-- The file after the calls so far. -/
def Kept (serde : SerdeJson) (double : List Char → UInt64) (s : VectorSession) : Prop :=
  ObjectOf serde double s.file s.exported

/-- The file holds the documents, and each of them has a text. -/
structure Holds (serde : SerdeJson) (s : VectorSession) : Prop where
  file : VectorHolds (outputBytes s.file) (textsOf serde s.exported)
  finite : ∀ e ∈ s.exported, e.stored.Finite

variable {serde : SerdeJson} {double : List Char → UInt64} {s s' start : VectorSession}

theorem Holds.of_returned {documents : List EmbeddedChunk} {result : VectorExporter.Exported}
    (holds : s.Holds serde) (taken : s.returned documents result = some s')
    (after : result.result = .ok () →
      VectorHolds (outputBytes result.file)
          (textsOf serde s.exported ++ textsOf serde (s.exporter.entries documents)) ∧
        (∀ e ∈ s.exporter.entries documents, e.stored.Finite)) : s'.Holds serde := by
  rw [returned] at taken
  split at taken
  next => cases taken
  next ok =>
    cases taken
    obtain ⟨file, finite⟩ := after ok
    refine ⟨?_, ?_⟩
    · simpa [textsOf] using file
    · intro e member
      rcases List.mem_append.mp member with old | new
      · exact holds.finite e old
      · exact finite e new

theorem Holds.step {call : VectorCall} (holds : s.Holds serde) (aligned : s.Aligned call)
    (taken : s.step serde call = some s') : s'.Holds serde := by
  cases call with
  | renew =>
    cases taken
    exact ⟨holds.file, holds.finite⟩
  | exportDocument createdAt document =>
    apply holds.of_returned taken
    intro ok
    have same := VectorExporter.exportDocument_eq_exportBatch ok
    rw [same] at ok ⊢
    exact VectorExporter.exportBatch_ok holds.file aligned (List.cons_ne_nil document []) ok
  | exportBatch createdAt documents =>
    apply holds.of_returned taken
    intro ok
    by_cases nonempty : documents = []
    · -- an empty batch does not open the file
      subst nonempty
      refine ⟨?_, nofun⟩
      simpa [VectorExporter.exportBatch, VectorExporter.entries, textsOf] using holds.file
    · exact VectorExporter.exportBatch_ok holds.file (aligned nonempty) nonempty ok

theorem exported_documents_kept (spelled : serde.Spelled double) (unused : start.exported = [])
    (empty : outputBytes start.file = [])
    (reached : Reachable (fun s call s' => s.step serde call = some s') Aligned start s) :
    s.Kept serde double := by
  have holds : s.Holds serde := reached.invariant (motive := Holds serde)
    ⟨.inl ⟨by simp [textsOf, unused], empty⟩, by simp [unused]⟩
    (fun _ _ _ holds aligned taken => holds.step aligned taken)
  exact holds.file.object spelled holds.finite

/-! Three documents, the first of them with a character of three bytes. The scan of the second call
starts at that character, or one byte later when the text is longer by one. -/

namespace Price

/-- Compact texts; no document here has an embedding. -/
def plainSerde : SerdeJson where
  toString v := String.ofList (JsonText.compact (fun bits => "0.".toList ++ Nat.toDigits 10 bits.toNat) v)
  single bits := bits.toUInt64

def plainDouble (text : List Char) : UInt64 := UInt64.ofNat (Nat.ofDigitChars 10 (text.drop 2) 0)

theorem plainSerde_spelled : plainSerde.Spelled plainDouble := by
  intro document finite
  have text : (document.json plainSerde).toList = JsonText.compact
      (fun bits => "0.".toList ++ Nat.toDigits 10 bits.toNat) (document.value plainSerde) :=
    String.toList_ofList
  rw [text]
  apply JsonText.spells_compact
  intro bits
  have digits : JsonText.isDigits (Nat.toDigits 10 bits.toNat) = true := by
    have nonempty : Nat.toDigits 10 bits.toNat ≠ [] := Nat.toDigits_ne_nil
    simp only [JsonText.isDigits, Bool.and_eq_true, bne_iff_ne, ne_eq, nonempty, not_false_eq_true,
      List.all_eq_true, true_and]
    exact fun c member => Nat.isDigit_of_mem_toDigits (by decide) (by decide) member
  constructor
  · exact ⟨[], ['0'], '.' :: Nat.toDigits 10 bits.toNat, [], by simp, .inl rfl, .inl rfl,
      .inr ⟨_, rfl, digits⟩, .inl rfl⟩
  · have written : ("0.".toList ++ Nat.toDigits 10 bits.toNat).drop 2 = Nat.toDigits 10 bits.toNat := rfl
    rw [plainDouble, written, Nat.ofDigitChars_ten_toDigits, UInt64.ofNat_toNat]

def createdAt : Timestamp where
  text := "2026-01-01T00:00:00+00:00"
  plain := List.all_iff_forall_prop.mp (by decide)

def document (content : String) (metadata : List (String × String)) : EmbeddedChunk where
  chunk := {
    id := "a"
    url := "https://a.test/"
    title := "t"
    content := content
    metadata := metadata
    timestampRfc3339 := "2026-01-01T00:00:00+00:00"
    timestamp := "2026-01-01T00:00:00Z"
    correlationId := none }
  embeddings := none

def dots (n : Nat) : String := String.ofList (List.replicate n '.')

def price (n : Nat) : EmbeddedChunk :=
  document "€" [("k", dots 30), ("l", dots 30), ("m", dots 30), ("n", dots 30), ("o", dots n)]

def empty : VectorSession := ⟨.new, none, []⟩

def calls (n : Nat) : List VectorCall :=
  [.exportDocument createdAt (price n), .renew,
    .exportBatch createdAt [document "b" [], document "c" []]]

theorem aligned_kept : ∃ s : VectorSession, s.exported.length = 3 ∧ s.Kept plainSerde plainDouble := by
  have ran : ((runEvents (fun s call => if decide (s.Aligned call) then s.step plainSerde call else none)
      empty (calls 44)).any fun s => s.exported.length == 3) = true := by decide +kernel
  obtain ⟨s, ran, three⟩ := (Option.any_eq_true _ _).mp ran
  have reached : Reachable (fun s call s' => VectorSession.step plainSerde s call = some s') Aligned empty s :=
    Reachable.run_checked .start (fun _ _ => of_decide_eq_true) ran
  exact ⟨s, of_decide_eq_true three, exported_documents_kept plainSerde_spelled rfl rfl reached⟩

theorem shifted_lost : ∃ s, Reachable (fun s call s' => VectorSession.step plainSerde s call = some s')
    (fun _ _ => True) empty s ∧ ¬ s.Kept plainSerde plainDouble := by
  have ran : ((runEvents (fun s call => s.step plainSerde call) empty (calls 45)).any fun s =>
      (outputBytes s.file).contains 0) = true := by decide +kernel
  obtain ⟨s, ran, zero⟩ := (Option.any_eq_true _ _).mp ran
  exact ⟨s, Reachable.run .start (fun _ _ _ => trivial) ran, not_objectOf_of_zero (List.mem_of_elem_eq_true zero)⟩

end Price

end VectorSession

end Webfang.Export
