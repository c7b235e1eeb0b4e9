import Webfang.Export.ShiftedCuts
import Webfang.Library.JsonDepth

/-!
# Vector files behind a rejected call

An append cuts the file at its closing bracket and records the dimensions of an embedding before it
checks a document. A call that returns an error leaves both as they are then.
-/
namespace Webfang.Export

open Library
open JsonText (ScanState)
open VectorExporter (textsOf)

variable {serde : SerdeJson} {double : List Char → UInt64}

/-- The bytes are a JSON object whose documents begin with those exported. -/
def KeepsDocuments (serde : SerdeJson) (double : List Char → UInt64) (exported : List ExportedChunk)
    (bytes : Bytes) : Prop :=
  ∃ (text : String) (v : Json) (more : List Json), bytes = utf8 text ∧
    JsonText.Spells double (.value v) text.toList ∧
    v.get "documents" = some (.arr ((exported.map fun e => e.stored.value serde) ++ more))

variable {exported : List ExportedChunk} {chars : List Char}

/-! ### Files that are no JSON -/

theorem not_keeps_of_zero {bytes : Bytes} (zero : 0 ∈ bytes) :
    ¬ KeepsDocuments serde double exported bytes := by
  rintro ⟨text, v, more, rfl, spelled, -⟩
  exact zero_notMem_of_spelled spelled zero

def fileScan (chars : List Char) : ScanState := (ScanState.between 0).scan chars.tail

theorem fileScan_of_keeps (braced : chars.head? = some '\x7b')
    (keeps : KeepsDocuments serde double exported (Subslice.encodeChars chars)) :
    fileScan chars = .closed := by
  obtain ⟨text, v, more, bytes, spelled, -⟩ := keeps
  have same : text = String.ofList chars := by
    have read := congrArg fromUtf8 (bytes.symm.trans (utf8_ofList chars).symm)
    rw [fromUtf8_utf8, fromUtf8_utf8] at read
    exact Option.some.inj read
  rw [same, String.toList_ofList] at spelled
  cases chars with
  | nil => cases braced
  | cons c rest =>
    rw [List.head?_cons, Option.some.injEq] at braced
    subst braced
    exact spelled.scan_object

theorem scan_brackets {state : ScanState} (ended : state.scan [']', '\x7d'] = .closed) :
    state = .between 1 := by
  cases state with
  | between depth =>
    match depth with
    | 0 => exact absurd ended (by decide)
    | 1 => rfl
    | depth + 2 => exact absurd ended (by simp [ScanState.next])
  | quoted depth => exact absurd ended (by simp [ScanState.next])
  | escaped depth => exact absurd ended (by simp [ScanState.next])
  | closed => exact absurd ended (by decide)
  | broken => exact absurd ended (by decide)

/-! ### The documents of a file -/

def AllFinite (exported : List ExportedChunk) : Prop := ∀ e ∈ exported, e.stored.Finite

namespace VectorHeader

variable {header : VectorHeader} {count : Nat}

theorem head_openedChars (texts : List String) (rest : List Char) :
    (header.openedChars count texts ++ rest).head? = some '\x7b' := by
  have opening : openingPart = '\x7b' :: openingPart.tail := by decide
  rw [openedChars, opening]
  rfl

/-- The scan of a file stands inside of two brackets at its closing. -/
theorem fileScan_opened (spelled : serde.Spelled double) (finite : AllFinite exported) (rest : List Char) :
    fileScan (header.openedChars count (textsOf serde exported) ++ rest) =
      (ScanState.between 1).scan rest := by
  have object := @header.spells_openedChars double count _ _ (spelled.texts finite)
  cases shape : header.openedChars count (textsOf serde exported) with
  | nil =>
    have head := @head_openedChars header count (textsOf serde exported) []
    rw [shape] at head
    cases head
  | cons c inner =>
    have head := @head_openedChars header count (textsOf serde exported) []
    rw [shape, List.append_nil, List.head?_cons, Option.some.injEq] at head
    subst head
    rw [shape, List.cons_append] at object
    have ended := object.scan_object
    rw [ScanState.scan_append] at ended
    rw [fileScan, List.cons_append, List.tail_cons, ScanState.scan_append, scan_brackets ended]

/-- Behind the documents of a file stands what closes it. -/
theorem closed_of_keeps (spelled : serde.Spelled double) (finite : AllFinite exported) (rest : List Char)
    {held : List ExportedChunk} (keeps : KeepsDocuments serde double held
      (header.opened count (textsOf serde exported) ++ Subslice.encodeChars rest)) :
    (ScanState.between 1).scan rest = .closed := by
  rw [← encodeChars_openedChars, ← Subslice.encodeChars_append] at keeps
  rw [← @fileScan_opened _ _ _ header count spelled finite rest]
  exact fileScan_of_keeps (head_openedChars _ rest) keeps

/-- A closed file keeps the documents, with and without the line break at its end. -/
theorem keeps_closed (spelled : serde.Spelled double) {more : List ExportedChunk}
    (finite : AllFinite (exported ++ more)) {ended : Bytes} (short : ended = [] ∨ ended = [newline]) :
    KeepsDocuments serde double exported
      (header.opened count (textsOf serde (exported ++ more)) ++ closingBracket :: (0x7D :: ended)) := by
  have object := @header.spells_openedChars double count _ _ (spelled.texts finite)
  have documents : (header.objectWith count ((exported ++ more).map fun e => e.stored.value serde)).get
      "documents" = some (.arr ((exported.map fun e => e.stored.value serde) ++
        more.map fun e => e.stored.value serde)) := by
    simp [objectWith, Json.get]
  obtain ⟨blank, spaces, bytes⟩ : ∃ blank : List Char, blank.all JsonText.isSpace = true ∧
      closingBracket :: (0x7D :: ended) = Subslice.encodeChars ([']', '\x7d'] ++ blank) := by
    rcases short with rfl | rfl
    · exact ⟨[], by decide, by decide⟩
    · exact ⟨['\n'], by decide, by decide⟩
  refine ⟨String.ofList (header.openedChars count (textsOf serde (exported ++ more)) ++
    ([']', '\x7d'] ++ blank)), _, _, ?_, ?_, documents⟩
  · rw [utf8_ofList, bytes, ← encodeChars_openedChars, ← Subslice.encodeChars_append]
    rfl
  · rw [String.toList_ofList, ← List.append_assoc]
    exact object.before spaces

end VectorHeader

namespace VectorExporter

variable {exporter : VectorExporter}

/-! ### The documents of a call -/

def stores (exporter : VectorExporter) (document : EmbeddedChunk) : EmbeddedChunk :=
  ExportedChunk.stored ⟨document, exporter.dimensions⟩

theorem serializeWhole_error {document : EmbeddedChunk} {components : List UInt32} {e : ExporterError}
    (embedded : document.embeddings = some components)
    (refused : serializeWhole serde document components = .error e) : ¬ document.Finite := by
  rw [serializeWhole] at refused
  split at refused
  next found =>
    rcases List.any_eq_true.mp found with ⟨bits, member, infinite⟩
    intro finite
    rw [finite components embedded bits member] at infinite
    cases infinite
  next => cases refused

/-- A document is refused where what it would store is not finite; it is learned from before. -/
theorem serializeDocument_error {document : EmbeddedChunk} {e : ExporterError} {after : VectorExporter}
    (refused : exporter.serializeDocument serde document = (.error e, after)) :
    ¬ (exporter.stores document).Finite ∧ document.embeddings ≠ none ∧
      after = exporter.learn document := by
  obtain ⟨dimensions⟩ := exporter
  rw [serializeDocument] at refused
  simp only [stores, ExportedChunk.stored, learn]
  cases embedded : document.embeddings with
  | none => simp [embedded] at refused
  | some components =>
    rw [embedded] at refused
    cases dimensions with
    | none =>
      simp only [Prod.mk.injEq] at refused
      exact ⟨serializeWhole_error embedded refused.1, Option.some_ne_none _, refused.2.symm⟩
    | some expected =>
      dsimp only at refused ⊢
      split at refused
      next => cases refused
      next agrees =>
        simp only [Prod.mk.injEq] at refused
        rw [if_neg agrees]
        exact ⟨serializeWhole_error embedded refused.1, Option.some_ne_none _, refused.2.symm⟩

/-- What a loop over the documents of a call leaves: it ends where they are all finite, and learned from
them then; and its text keeps the depth of the file. `whole` says that a refused document leaves its
comma. -/
structure LoopText (serde : SerdeJson) (exporter : VectorExporter) (documents : List EmbeddedChunk)
    (whole : Bool) (written : Written) : Prop where
  ended_iff : written.result = .ok () ↔ AllFinite (exporter.entries documents)
  learned : written.result = .ok () ∨ whole = false → written.exporter = documents.foldl learn exporter
  text : written.result = .ok () → written.text =
    (exporter.entries documents).flatMap fun e => comma :: (e.stored.text serde ++ [newline])
  chars : ∃ chars, written.text = Subslice.encodeChars chars ∧
    (∀ depth, (ScanState.between depth).scan chars = .between depth) ∧
    ((∃ rest, chars = ',' :: rest) ∧ (whole = false → written.result = .ok ()) ∨
      chars = [] ∧ whole = false ∧ written.result ≠ .ok ())

theorem scan_document (spelled : serde.Spelled double) {document : EmbeddedChunk} (finite : document.Finite)
    (depth : Nat) :
    (ScanState.between depth).scan (',' :: ((document.json serde).toList ++ ['\n'])) = .between depth := by
  have inner := (spelled document finite).scan_eq depth
  have comma : ScanState.isInert ',' = true := by decide
  have ended : ScanState.isInert '\n' = true := by decide
  rw [ScanState.scan_cons, ScanState.next_inert comma, ScanState.scan_append, inner, ScanState.scan_cons,
    ScanState.next_inert ended, ScanState.scan_nil]

variable (serde) in
theorem encodeChars_document (document : EmbeddedChunk) :
    comma :: (document.text serde ++ [newline]) =
      Subslice.encodeChars (',' :: ((document.json serde).toList ++ ['\n'])) := by
  have mark : String.utf8EncodeChar ',' = [comma] := by decide
  have line : Subslice.encodeChars ['\n'] = [newline] := by decide
  rw [Subslice.encodeChars_cons, Subslice.encodeChars_append, mark, line, ← utf8_eq]
  rfl

theorem scan_comma (depth : Nat) : (ScanState.between depth).scan [','] = .between depth := by
  have comma : ScanState.isInert ',' = true := by decide
  rw [ScanState.scan_cons, ScanState.next_inert comma, ScanState.scan_nil]

theorem allFinite_entries_cons (exporter : VectorExporter) (document : EmbeddedChunk)
    (rest : List EmbeddedChunk) : AllFinite (exporter.entries (document :: rest)) ↔
      (exporter.stores document).Finite ∧ AllFinite ((exporter.learn document).entries rest) :=
  List.forall_mem_cons

theorem writeDocuments_loopText (spelled : serde.Spelled double) (exporter : VectorExporter)
    {documents : List EmbeddedChunk} (more : documents ≠ []) :
    LoopText serde exporter documents true (writeDocuments serde exporter true documents) := by
  induction documents generalizing exporter with
  | nil => exact absurd rfl more
  | cons document rest ih =>
    rw [writeDocuments]
    cases serialized : exporter.serializeDocument serde document with
    | mk result after =>
      cases result with
      | error e =>
        -- the comma in front of the document is written before it is checked
        obtain ⟨infinite, -, rfl⟩ := serializeDocument_error serialized
        have single : [comma] = Subslice.encodeChars [','] := by decide
        refine ⟨⟨?_, fun finite => ?_⟩, ?_, ?_, [','], single, scan_comma, .inl ⟨⟨[], rfl⟩, ?_⟩⟩
        · rintro ⟨⟩
        · exact absurd ((allFinite_entries_cons ..).mp finite).1 infinite
        · rintro (ended | ended) <;> cases ended
        · rintro ⟨⟩
        · rintro ⟨⟩
      | ok text =>
        obtain ⟨rfl, finite, rfl⟩ := serializeDocument_ok serialized
        have finite : (exporter.stores document).Finite := finite
        have line := encodeChars_document serde (exporter.stores document)
        have depth := scan_document spelled finite
        by_cases last : rest = []
        · subst last
          refine ⟨⟨fun _ => ?_, fun _ => rfl⟩, fun _ => rfl, fun _ => ?_, _, ?_, depth,
            .inl ⟨⟨_, rfl⟩, fun _ => rfl⟩⟩
          · exact (allFinite_entries_cons ..).mpr ⟨finite, List.forall_mem_nil _⟩
          · simp [entries, writeDocuments]
          · rw [← line]
            simp [writeDocuments, stores]
        · have later := ih (exporter.learn document) last
          rcases later.chars with ⟨chars, text, kept, -⟩
          refine ⟨?_, ?_, ?_, (',' :: (((exporter.stores document).json serde).toList ++ ['\n'])) ++ chars,
            ?_, fun n => ?_, .inl ⟨⟨_, rfl⟩, ?_⟩⟩
          · rw [allFinite_entries_cons, ← later.ended_iff]
            exact ⟨fun ended => ⟨finite, ended⟩, And.right⟩
          · exact later.learned
          · intro ended
            dsimp only at ended ⊢
            rw [later.text ended]
            simp [entries]
          · dsimp only
            rw [Subslice.encodeChars_append, ← line, text]
            rfl
          · rw [ScanState.scan_append, depth, kept]
          · rintro ⟨⟩

/-- A single document is checked before its comma is written. -/
theorem exportDocument_loopText (spelled : serde.Spelled double) (exporter : VectorExporter)
    (document : EmbeddedChunk) :
    LoopText serde exporter [document] false
      (match exporter.serializeDocument serde document with
        | (.error e, exporter) => ⟨[], exporter, .error e⟩
        | (.ok text, exporter) => ⟨[comma] ++ (text ++ [newline]), exporter, .ok ()⟩) := by
  cases serialized : exporter.serializeDocument serde document with
  | mk result after =>
    cases result with
    | error e =>
      obtain ⟨infinite, -, rfl⟩ := serializeDocument_error serialized
      refine ⟨⟨nofun, fun finite => ?_⟩, fun _ => rfl, nofun, [], rfl, fun _ => rfl, .inr ⟨rfl, rfl, nofun⟩⟩
      exact absurd ((allFinite_entries_cons ..).mp finite).1 infinite
    | ok text =>
      obtain ⟨rfl, finite, rfl⟩ := serializeDocument_ok serialized
      have finite : (exporter.stores document).Finite := finite
      have line := encodeChars_document serde (exporter.stores document)
      refine ⟨⟨fun _ => ?_, fun _ => rfl⟩, fun _ => rfl, fun _ => ?_, _, ?_, scan_document spelled finite,
        .inl ⟨⟨_, rfl⟩, fun _ => rfl⟩⟩
      · exact (allFinite_entries_cons ..).mpr ⟨finite, nofun⟩
      · simp [entries]
      · rw [← line]
        rfl

end VectorExporter

/-! ### What may stand behind the documents -/

namespace VectorHeader

variable {header : VectorHeader} {count : Nat}

/-- A file that is open behind its documents is no JSON. -/
theorem not_keeps_open (spelled : serde.Spelled double) (finite : AllFinite exported) {rest : List Char}
    (kept : ∀ depth, (ScanState.between depth).scan rest = .between depth) (held : List ExportedChunk) :
    ¬ KeepsDocuments serde double held
      (header.opened count (textsOf serde exported) ++ Subslice.encodeChars rest) := by
  intro keeps
  have closed := closed_of_keeps spelled finite rest keeps
  rw [kept] at closed
  cases closed

/-- A file that goes on behind its last brace is no JSON. -/
theorem not_keeps_behind (spelled : serde.Spelled double) (finite : AllFinite exported) {c : Char}
    (other : JsonText.isSpace c = false) (rest : List Char) (held : List ExportedChunk) :
    ¬ KeepsDocuments serde double held (header.opened count (textsOf serde exported) ++
      ([closingBracket, 0x7D] ++ Subslice.encodeChars (c :: rest))) := by
  have brackets : [closingBracket, 0x7D] = Subslice.encodeChars [']', '\x7d'] := by decide
  rw [brackets, ← Subslice.encodeChars_append]
  intro keeps
  have closed := closed_of_keeps spelled finite _ keeps
  have ended : (ScanState.between 1).scan [']', '\x7d'] = .closed := by decide
  rw [ScanState.scan_append, ended, ScanState.scan_closed_iff] at closed
  rw [closed c List.mem_cons_self] at other
  cases other

/-- The next append finds the closing of a file where its scan starts at a character. -/
theorem keeps_truncated_iff (spelled : serde.Spelled double) {more : List ExportedChunk}
    (finite : AllFinite (exported ++ more)) {ended : Bytes} (short : ended = [] ∨ ended = [newline])
    {bytes : Bytes} (whole : bytes = header.opened count (textsOf serde (exported ++ more)) ++
      closingBracket :: (0x7D :: ended)) :
    KeepsDocuments serde double exported (truncateAtBracket bytes ++ closing) ↔ BoundaryScan bytes := by
  obtain ⟨blank, tail⟩ : ∃ blank : List Char,
      closingBracket :: (0x7D :: ended) = Subslice.encodeChars ([']', '\x7d'] ++ blank) := by
    rcases short with rfl | rfl
    · exact ⟨[], by decide⟩
    · exact ⟨['\n'], by decide⟩
  have chars : Subslice.encodeChars (header.openedChars count (textsOf serde (exported ++ more)) ++
      ([']', '\x7d'] ++ blank)) = bytes := by
    rw [whole, tail, Subslice.encodeChars_append, encodeChars_openedChars]
  have closed : closing = closingBracket :: (0x7D :: [newline]) := by decide
  subst whole
  rcases truncateAtBracket_cases short chars with
    ⟨boundary, cut⟩ | ⟨inside, -, cut⟩ | ⟨inside, -, zeros, cut, zero⟩
  · refine iff_of_true ?_ boundary
    rw [cut, closed]
    exact keeps_closed spelled finite (.inr rfl)
  · refine iff_of_false ?_ inside
    have behind : closing = Subslice.encodeChars (']' :: ['\x7d', '\n']) := by decide
    rw [cut, behind, List.append_assoc]
    exact not_keeps_behind spelled finite (by decide) _ _
  · refine iff_of_false (not_keeps_of_zero ?_) inside
    rw [cut]
    exact List.mem_append_left _ (List.mem_append_right _ zero)

end VectorHeader

namespace VectorExporter

variable {exporter : VectorExporter} {documents : List EmbeddedChunk} {written : Written}

/-! ### The close of a call -/

/-- The call can teach the exporter no dimensions. -/
def NothingLearned (exporter : VectorExporter) (documents : List EmbeddedChunk) : Prop :=
  exporter.dimensions ≠ none ∨ ∀ document ∈ documents, document.embeddings = none

theorem foldl_learn_eq_iff (exporter : VectorExporter) (documents : List EmbeddedChunk) :
    documents.foldl learn exporter = exporter ↔ NothingLearned exporter documents := by
  obtain ⟨_ | n⟩ := exporter
  · have unknown : NothingLearned ⟨none⟩ documents ↔ ∀ document ∈ documents, document.embeddings = none := by
      simp [NothingLearned]
    rw [unknown]
    clear unknown
    induction documents with
    | nil => simp
    | cons document rest ih =>
      rw [List.foldl_cons, List.forall_mem_cons]
      cases embedded : document.embeddings with
      | none =>
        have same : learn ⟨none⟩ document = ⟨none⟩ := by rw [learn, embedded]; rfl
        rw [same]
        exact ih.trans (by simp)
      | some components =>
        have learned := foldl_learn (learn ⟨none⟩ document) rest
          (show (learn ⟨none⟩ document).dimensions = some components.length by rw [learn, embedded]; rfl)
        refine iff_of_false (fun same => ?_) (by simp)
        rw [same] at learned
        cases learned
  · refine iff_of_true ?_ (.inl (Option.some_ne_none n))
    have learned := foldl_learn ⟨some n⟩ documents rfl
    cases known : documents.foldl learn ⟨some n⟩ with
    | mk dimensions =>
      rw [known] at learned
      exact congrArg VectorExporter.mk learned

/-- A call that fails behind its loop leaves a closed file under a header with some count. -/
theorem finish_unpatched {header : VectorHeader} {count total : Nat} {after : Bytes}
    (room : count < 10 ^ countFieldWidth) (ended : written.result = .ok ())
    (rejected : (finish written (header.line count ++ after) total).result ≠ .ok ()) :
    ∃ patched, (finish written (header.line count ++ after) total).file =
        some (header.line patched ++ (after ++ written.text ++ closing)) ∧
      patched < 10 ^ countFieldWidth ∧
      (finish written (header.line count ++ after) total).exporter = written.exporter := by
  have whole : header.line count ++ after ++ written.text ++ closing =
      header.line count ++ (after ++ written.text ++ closing) := by
    simp only [List.append_assoc]
  unfold finish at rejected ⊢
  dsimp only at rejected ⊢
  rw [ended, whole] at rejected ⊢
  dsimp only at rejected ⊢
  cases closed : written.exporter.patchHeader (header.line count ++ (after ++ written.text ++ closing)) total
    with
  | mk result left =>
    cases result with
    | ok => exact absurd (by rw [closed]) rejected
    | error e =>
      obtain ⟨patched, small, rfl⟩ := VectorHeader.patchHeader_error room closed
      exact ⟨patched, rfl, small, rfl⟩

theorem finish_refused {bytes : Bytes} {total : Nat} (refused : written.result ≠ .ok ()) :
    (finish written bytes total).file = some (bytes ++ written.text) ∧
      (finish written bytes total).exporter = written.exporter := by
  unfold finish
  cases ended : written.result with
  | ok => exact absurd ended refused
  | error e => exact ⟨rfl, rfl⟩

/-! ### The verdict -/

/-- The scan of a file starts at the second byte of a character of two. -/
def InsidePair (bytes : Bytes) : Prop :=
  ¬ BoundaryScan bytes ∧ Subslice.AtBoundary (scanStart bytes + 1) bytes ∧
    Subslice.AtBoundary (scanStart bytes - 1) bytes

/-- The file with more documents behind its own. -/
def grown (serde : SerdeJson) (bytes : Bytes) (entries : List ExportedChunk) : Bytes :=
  bytes.take (bytes.length - closing.length) ++
    (entries.flatMap fun e => comma :: (e.stored.text serde ++ [newline])) ++ closing

/-- A rejected call has no effect on what was there: the file is JSON with the documents it had, the
exporter expects the same dimensions, and an append would cut the file at its closing. -/
structure Harmless (serde : SerdeJson) (double : List Char → UInt64) (exported : List ExportedChunk)
    (exporter : VectorExporter) (answer : Exported) : Prop where
  kept : KeepsDocuments serde double exported (outputBytes answer.file)
  dimensions : answer.exporter = exporter
  appendable : KeepsDocuments serde double exported (truncateAtBracket (outputBytes answer.file) ++ closing)

/-- When a rejected call is harmless. With `whole`, a refused document leaves its comma. -/
def HarmlessWhen (serde : SerdeJson) (exporter : VectorExporter) (documents : List EmbeddedChunk)
    (whole : Bool) (bytes : Bytes) : Prop :=
  NothingLearned exporter documents ∧
    (AllFinite (exporter.entries documents) ∧ BoundaryScan bytes ∧
        BoundaryScan (grown serde bytes (exporter.entries documents)) ∨
      whole = false ∧ ¬ AllFinite (exporter.entries documents) ∧ InsidePair bytes)

variable {whole : Bool} {header : VectorHeader} {count total : Nat}

theorem insidePair_iff {front : Bytes} (inside : ¬ BoundaryScan (front ++ closing))
    (next : Subslice.AtBoundary (scanStart (front ++ closing) + 1) (front ++ closing)) :
    InsidePair (front ++ closing) ↔ BoundaryScan (front ++ [closingBracket, 0x7D]) := by
  have closed : closing = [closingBracket, 0x7D, newline] := by decide
  have start : scanStart (front ++ closing) - 1 = scanStart (front ++ [closingBracket, 0x7D]) := by
    simp only [scanStart, closed, List.length_append, List.length_cons, List.length_nil, bracketScanBytes]
    omega
  have parts : front ++ closing = (front ++ [closingBracket, 0x7D]) ++ [newline] := by simp [closed]
  have same : ∀ b, (front ++ closing)[scanStart (front ++ [closingBracket, 0x7D])]? = some b ↔
      (front ++ [closingBracket, 0x7D])[scanStart (front ++ [closingBracket, 0x7D])]? = some b := by
    intro b
    rw [parts, List.getElem?_append_left]
    simp only [scanStart, List.length_append, List.length_cons, List.length_nil, bracketScanBytes]
    omega
  unfold InsidePair
  rw [start]
  constructor
  · rintro ⟨-, -, boundary⟩ b here
    exact boundary b ((same b).mpr here)
  · exact fun boundary => ⟨inside, next, fun b here => boundary b ((same b).mp here)⟩

theorem harmless_iff {answer : Exported} {left : Bytes} {after : VectorExporter}
    (file : answer.file = some left) (learned : answer.exporter = after) :
    Harmless serde double exported exporter answer ↔ KeepsDocuments serde double exported left ∧
      after = exporter ∧ KeepsDocuments serde double exported (truncateAtBracket left ++ closing) := by
  have bytes : outputBytes answer.file = left := by rw [file]; rfl
  constructor
  · rintro ⟨kept, dimensions, appendable⟩
    rw [bytes] at kept appendable
    exact ⟨kept, learned.symm.trans dimensions, appendable⟩
  · rintro ⟨kept, dimensions, appendable⟩
    rw [← bytes] at kept appendable
    exact ⟨kept, learned.trans dimensions, appendable⟩

theorem encodeChars_closed (header : VectorHeader) (count : Nat) (texts : List String) :
    Subslice.encodeChars (header.openedChars count texts ++ [']', '\x7d', '\n']) =
      header.opened count texts ++ closingBracket :: (0x7D :: [newline]) := by
  have tail : Subslice.encodeChars [']', '\x7d', '\n'] = closingBracket :: (0x7D :: [newline]) := by decide
  rw [Subslice.encodeChars_append, VectorHeader.encodeChars_openedChars, tail]

theorem closing_eq : closing = closingBracket :: (0x7D :: [newline]) := by decide

/-- A refused document: only a single one that is refused in front of its comma can leave the file closed. -/
theorem harmless_refused_iff (spelled : serde.Spelled double) (finite : AllFinite exported)
    (loop : LoopText serde exporter documents whole written) (refused : written.result ≠ .ok ())
    {bytes : Bytes} (closed : bytes = header.opened count (textsOf serde exported) ++ closing) :
    Harmless serde double exported exporter (finish written (truncateAtBracket bytes) total) ↔
      HarmlessWhen serde exporter documents whole bytes := by
  have infinite : ¬ AllFinite (exporter.entries documents) := fun all => refused (loop.ended_iff.mpr all)
  obtain ⟨file, after⟩ := @finish_refused written (truncateAtBracket bytes) total refused
  rw [harmless_iff file after, HarmlessWhen]
  simp only [infinite, false_and, false_or, not_false_eq_true, true_and]
  have cuts := truncateAtBracket_cases (.inr rfl) (encodeChars_closed header count (textsOf serde exported))
  rw [← closing_eq] at cuts
  dsimp only at cuts
  rw [← closed] at cuts
  obtain ⟨chars, text, scans, shape⟩ := loop.chars
  rw [text]
  rcases cuts with ⟨boundary, cut⟩ | ⟨inside, next, cut⟩ | ⟨-, other, zeros, cut, zero⟩
  · -- the file is open at its documents
    refine iff_of_false (fun harmless => ?_) (fun pair => pair.2.2.1 boundary)
    rw [cut] at harmless
    exact VectorHeader.not_keeps_open spelled finite scans _ harmless.1
  · rw [cut, List.append_assoc]
    rcases shape with ⟨⟨more, rfl⟩, comma⟩ | ⟨rfl, single, -⟩
    · refine iff_of_false (fun harmless => ?_) (fun pair => refused (comma pair.2.1))
      exact VectorHeader.not_keeps_behind spelled finite (by decide) more _ harmless.1
    · -- nothing but the line break at the end of the file is lost
      have alone : exported ++ [] = exported := List.append_nil exported
      have kept := @VectorHeader.keeps_closed _ _ exported header count spelled [] (by rwa [alone]) []
        (.inl rfl)
      have again := @VectorHeader.keeps_truncated_iff _ _ exported header count spelled [] (by rwa [alone]) []
        (.inl rfl) _ rfl
      have learned := loop.learned (.inr single)
      rw [alone] at kept again
      rw [Subslice.encodeChars_nil, List.append_nil, learned, foldl_learn_eq_iff, again]
      rw [closed] at inside next ⊢
      rw [insidePair_iff inside next]
      exact ⟨fun harmless => ⟨harmless.2.1, single, harmless.2.2⟩,
        fun pair => ⟨kept, pair.1, pair.2.2⟩⟩
  · -- the cut put zeros behind the file
    refine iff_of_false (fun harmless => ?_) (fun pair => other pair.2.2.2.1)
    refine not_keeps_of_zero ?_ harmless.1
    rw [cut]
    exact List.mem_append_left _ (List.mem_append_right _ zero)

theorem isContinuation_countField (count : Nat) :
    ∀ b ∈ countField count, Subslice.isContinuation b = false := by
  intro b member
  have plain := isFieldChar_padLeft (isFieldChar_toString count) countFieldWidth
  rw [countField, utf8_of_ascii fun c inside => (toNat_of_isFieldChar (plain c inside)).1] at member
  obtain ⟨c, inside, rfl⟩ := List.mem_map.mp member
  have small := (toNat_of_isFieldChar (plain c inside)).1
  rw [Bool.eq_false_iff, ne_eq, Subslice.isContinuation_iff, Subslice.toNat_ofNat_of_lt (by omega)]
  omega

theorem atBoundary_window {before window value after : Bytes} {n : Nat} (size : window.length = value.length)
    (plain : ∀ b ∈ value, Subslice.isContinuation b = false)
    (boundary : Subslice.AtBoundary n (before ++ (window ++ after))) :
    Subslice.AtBoundary n (before ++ (value ++ after)) := by
  intro b here
  by_cases first : n < before.length
  · apply boundary b
    rw [List.getElem?_append_left first] at here ⊢
    exact here
  · rw [List.getElem?_append_right (by omega)] at here
    by_cases inside : n - before.length < value.length
    · rw [List.getElem?_append_left inside] at here
      exact plain b (List.mem_of_getElem? here)
    · apply boundary b
      rw [List.getElem?_append_right (by omega)] at here ⊢
      rw [List.getElem?_append_right (by omega), size]
      exact here

theorem boundaryScan_line (header : VectorHeader) {m n : Nat} (roomM : m < 10 ^ countFieldWidth)
    (roomN : n < 10 ^ countFieldWidth) (after : Bytes) :
    BoundaryScan (header.line m ++ after) ↔ BoundaryScan (header.line n ++ after) := by
  have sizeM := (length_countField_iff m).mpr roomM
  have sizeN := (length_countField_iff n).mpr roomN
  have split (k : Nat) : header.line k ++ after =
      (header.front ++ totalMarker) ++ (countField k ++ (header.back ++ after)) := by
    simp [VectorHeader.line_eq]
  have sizes : (header.line m ++ after).length = (header.line n ++ after).length := by
    rw [split, split]
    simp only [List.length_append, sizeM, sizeN]
  unfold BoundaryScan
  rw [sizes, split, split]
  exact ⟨atBoundary_window (sizeM.trans sizeN.symm) (isContinuation_countField n),
    atBoundary_window (sizeN.trans sizeM.symm) (isContinuation_countField m)⟩

theorem boundaryScan_opened (header : VectorHeader) {m n : Nat} (roomM : m < 10 ^ countFieldWidth)
    (roomN : n < 10 ^ countFieldWidth) (texts : List String) (rest : Bytes) :
    BoundaryScan (header.opened m texts ++ rest) ↔ BoundaryScan (header.opened n texts ++ rest) := by
  have line (n : Nat) : header.opened n texts ++ rest =
      header.line n ++ (documentsMarker ++ vectorBody (texts.map utf8) ++ rest) := by
    rw [VectorHeader.opened, List.append_assoc]
  rw [line m, line n]
  exact boundaryScan_line header roomM roomN _

theorem vectorBody_append {old : List Bytes} (some_old : old ≠ []) (more : List Bytes) :
    vectorBody (old ++ more) =
      vectorBody old ++ more.flatMap fun document => comma :: (document ++ [newline]) := by
  cases old with
  | nil => exact absurd rfl some_old
  | cons first rest => simp [vectorBody]

/-- The documents of a call behind those of a file. -/
theorem opened_append (header : VectorHeader) (count : Nat) (some_exported : exported ≠ [])
    (more : List ExportedChunk) : header.opened count (textsOf serde (exported ++ more)) =
      header.opened count (textsOf serde exported) ++
        more.flatMap fun e => comma :: (e.stored.text serde ++ [newline]) := by
  have old : (textsOf serde exported).map utf8 ≠ [] := by simpa [textsOf] using some_exported
  have texts : (textsOf serde (exported ++ more)).map utf8 =
      (textsOf serde exported).map utf8 ++ more.map fun e => e.stored.text serde := by
    rw [← map_utf8_textsOf more]
    simp [textsOf]
  rw [VectorHeader.opened, VectorHeader.opened, texts, vectorBody_append old, List.flatMap_map]
  simp only [List.append_assoc]

theorem grown_eq (some_exported : exported ≠ []) (more : List ExportedChunk) :
    grown serde (header.opened count (textsOf serde exported) ++ closing) more =
      header.opened count (textsOf serde (exported ++ more)) ++ closing := by
  rw [grown, opened_append header count some_exported, List.length_append, Nat.add_sub_cancel, List.take_left]

/-- A call that fails behind its loop, over a file that was cut behind its documents. -/
theorem finish_unpatched_opened {texts : List String} {tail : Bytes} (room : count < 10 ^ countFieldWidth)
    (ended : written.result = .ok ())
    (rejected : (finish written (header.opened count texts ++ tail) total).result ≠ .ok ()) :
    ∃ patched, (finish written (header.opened count texts ++ tail) total).file =
        some (header.opened patched texts ++ tail ++ written.text ++ closing) ∧
      patched < 10 ^ countFieldWidth ∧
      (finish written (header.opened count texts ++ tail) total).exporter = written.exporter := by
  have line (n : Nat) : header.opened n texts ++ tail =
      header.line n ++ (documentsMarker ++ vectorBody (texts.map utf8) ++ tail) := by
    rw [VectorHeader.opened, List.append_assoc]
  rw [line count] at rejected ⊢
  obtain ⟨patched, file, small, after⟩ := finish_unpatched room ended rejected
  refine ⟨patched, ?_, small, after⟩
  rw [file, line patched]
  simp only [List.append_assoc]

variable (loop : LoopText serde exporter documents whole written) (ended : written.result = .ok ())
include loop ended

/-- The documents of the call are in the file, and the file is closed. -/
theorem harmless_written_iff (spelled : serde.Spelled double) (finite : AllFinite exported)
    (some_exported : exported ≠ []) (room : count < 10 ^ countFieldWidth)
    (rejected : (finish written (header.opened count (textsOf serde exported)) total).result ≠ .ok ()) :
    Harmless serde double exported exporter
        (finish written (header.opened count (textsOf serde exported)) total) ↔
      NothingLearned exporter documents ∧ BoundaryScan
        (grown serde (header.opened count (textsOf serde exported) ++ closing)
          (exporter.entries documents)) := by
  rw [← List.append_nil (header.opened count (textsOf serde exported))] at rejected
  obtain ⟨patched, file, small, after⟩ := finish_unpatched_opened room ended rejected
  rw [List.append_nil] at file after
  have all : AllFinite (exported ++ exporter.entries documents) :=
    List.forall_mem_append.mpr ⟨finite, loop.ended_iff.mp ended⟩
  have left : header.opened patched (textsOf serde exported) ++ [] ++ written.text ++ closing =
      header.opened patched (textsOf serde (exported ++ exporter.entries documents)) ++ closing := by
    rw [opened_append header patched some_exported, loop.text ended, List.append_nil]
  have closed : header.opened patched (textsOf serde exported) ++ [] ++ written.text ++ closing =
      header.opened patched (textsOf serde (exported ++ exporter.entries documents)) ++
        closingBracket :: (0x7D :: [newline]) := left.trans (by rw [closing_eq])
  have kept : KeepsDocuments serde double exported
      (header.opened patched (textsOf serde exported) ++ [] ++ written.text ++ closing) :=
    closed.symm.subst (VectorHeader.keeps_closed spelled all (.inr rfl))
  have again := VectorHeader.keeps_truncated_iff spelled all (.inr rfl) closed
  -- the count that stands in the header does not move the start of the scan
  have same := calc
    BoundaryScan (header.opened patched (textsOf serde exported) ++ [] ++ written.text ++ closing)
    _ ↔ BoundaryScan
        (header.opened patched (textsOf serde (exported ++ exporter.entries documents)) ++ closing) :=
        iff_of_eq (congrArg BoundaryScan left)
    _ ↔ BoundaryScan
        (header.opened count (textsOf serde (exported ++ exporter.entries documents)) ++ closing) :=
        boundaryScan_opened header small room _ _
    _ ↔ BoundaryScan (grown serde (header.opened count (textsOf serde exported) ++ closing)
        (exporter.entries documents)) := by rw [grown_eq some_exported]
  rw [harmless_iff file (after.trans (loop.learned (.inl ended))), again, same, foldl_learn_eq_iff]
  exact ⟨And.right, fun fine => ⟨kept, fine⟩⟩

/-- The documents of the call stand behind the end of the object. -/
theorem not_harmless_behind (spelled : serde.Spelled double) (finite : AllFinite exported)
    (room : count < 10 ^ countFieldWidth)
    (rejected : (finish written (header.opened count (textsOf serde exported) ++ [closingBracket, 0x7D])
      total).result ≠ .ok ()) :
    ¬ Harmless serde double exported exporter
      (finish written (header.opened count (textsOf serde exported) ++ [closingBracket, 0x7D]) total) := by
  obtain ⟨patched, file, small, after⟩ := finish_unpatched_opened room ended rejected
  intro harmless
  obtain ⟨chars, text, -, ⟨⟨more, rfl⟩, -⟩ | ⟨-, -, refused⟩⟩ := loop.chars
  · have left : header.opened patched (textsOf serde exported) ++ [closingBracket, 0x7D] ++ written.text ++
        closing =
        header.opened patched (textsOf serde exported) ++ ([closingBracket, 0x7D] ++
          Subslice.encodeChars (',' :: (more ++ [']', '\x7d', '\n']))) := by
      have tail : Subslice.encodeChars [']', '\x7d', '\n'] = closing := by decide
      rw [← List.cons_append, Subslice.encodeChars_append, tail, text]
      simp only [List.append_assoc]
    rw [left] at file
    exact VectorHeader.not_keeps_behind spelled finite (by decide) _ _
      ((harmless_iff file after).mp harmless).1
  · exact refused ended

omit loop in
theorem not_harmless_zeros (room : count < 10 ^ countFieldWidth) {zeros : Bytes} (zero : 0 ∈ zeros)
    (rejected : (finish written (header.opened count (textsOf serde exported) ++ (closing ++ zeros))
      total).result ≠ .ok ()) :
    ¬ Harmless serde double exported exporter
      (finish written (header.opened count (textsOf serde exported) ++ (closing ++ zeros)) total) := by
  obtain ⟨patched, file, small, after⟩ := finish_unpatched_opened room ended rejected
  intro harmless
  refine not_keeps_of_zero ?_ ((harmless_iff file after).mp harmless).1
  simp [zero]

/-- A call that fails behind its loop has written all its documents. -/
theorem harmless_unpatched_iff (spelled : serde.Spelled double) (finite : AllFinite exported)
    (some_exported : exported ≠ []) (room : count < 10 ^ countFieldWidth) {bytes : Bytes}
    (closed : bytes = header.opened count (textsOf serde exported) ++ closing)
    (rejected : (finish written (truncateAtBracket bytes) total).result ≠ .ok ()) :
    Harmless serde double exported exporter (finish written (truncateAtBracket bytes) total) ↔
      HarmlessWhen serde exporter documents whole bytes := by
  have all : AllFinite (exporter.entries documents) := loop.ended_iff.mp ended
  rw [HarmlessWhen]
  simp only [all, true_and, not_true, false_and, and_false, or_false]
  have cuts := truncateAtBracket_cases (.inr rfl) (encodeChars_closed header count (textsOf serde exported))
  rw [← closing_eq] at cuts
  dsimp only at cuts
  rw [← closed] at cuts
  rcases cuts with ⟨boundary, cut⟩ | ⟨inside, -, cut⟩ | ⟨inside, -, zeros, cut, zero⟩
  · rw [cut] at rejected ⊢
    rw [harmless_written_iff loop ended spelled finite some_exported room rejected, ← closed]
    exact and_congr_right fun _ => ⟨fun fine => ⟨boundary, fine⟩, And.right⟩
  · refine iff_of_false ?_ (fun fine => inside fine.2.1)
    rw [cut] at rejected ⊢
    exact not_harmless_behind loop ended spelled finite room rejected
  · refine iff_of_false ?_ (fun fine => inside fine.2.1)
    rw [cut, closed, List.append_assoc] at rejected ⊢
    exact not_harmless_zeros ended room zero rejected

omit loop ended

/-- What a call leaves behind its loop is the same question whether the loop or the header failed. -/
theorem harmless_finish_iff (spelled : serde.Spelled double) (finite : AllFinite exported)
    (some_exported : exported ≠ []) (room : count < 10 ^ countFieldWidth) {bytes : Bytes}
    (closed : bytes = header.opened count (textsOf serde exported) ++ closing)
    (loop : LoopText serde exporter documents whole written)
    (rejected : (finish written (truncateAtBracket bytes) total).result ≠ .ok ()) :
    Harmless serde double exported exporter (finish written (truncateAtBracket bytes) total) ↔
      HarmlessWhen serde exporter documents whole bytes := by
  by_cases ended : written.result = .ok ()
  · exact harmless_unpatched_iff loop ended spelled finite some_exported room closed rejected
  · exact harmless_refused_iff spelled finite loop ended closed

variable (exporter) in
/-- However the cut goes, the documents already in the file are counted from its header. -/
theorem openForDocuments_opened (createdAt : Bytes) {file : Option Bytes} (positive : 0 < count)
    (room : count < 10 ^ countFieldWidth)
    (closed : outputBytes file = header.opened count (textsOf serde exported) ++ closing) :
    exporter.openForDocuments createdAt file = .ok (some count, truncateAtBracket (outputBytes file)) := by
  obtain ⟨tail, cut⟩ : ∃ tail, truncateAtBracket (outputBytes file) =
      header.opened count (textsOf serde exported) ++ tail := by
    have cuts := truncateAtBracket_cases (.inr rfl) (encodeChars_closed header count (textsOf serde exported))
    rw [← closing_eq] at cuts
    dsimp only at cuts
    rw [← closed] at cuts
    rcases cuts with ⟨-, cut⟩ | ⟨-, -, cut⟩ | ⟨-, -, zeros, cut, -⟩
    · exact ⟨[], by rw [cut, List.append_nil]⟩
    · exact ⟨_, cut⟩
    · exact ⟨closing ++ zeros, by rw [cut, closed, List.append_assoc]⟩
  have filled : truncateAtBracket (outputBytes file) ≠ [] := by
    rw [cut]
    exact List.append_ne_nil_of_left_ne_nil (opened_ne_nil header _ _) _
  rw [openForDocuments, openForAppend_eq, if_neg filled, cut, VectorHeader.opened, List.append_assoc,
    List.append_assoc, VectorHeader.readAppendState_line exporter positive room]
  rfl

/-- **A rejected call leaves the file and the exporter as they were only when it has nothing to learn, and
either all its documents were written and no scan starts inside of a character, or its single document
is refused where the scan starts inside of a pair.** -/
theorem rejected_harmless_iff (spelled : serde.Spelled double) {file : Option Bytes}
    (holds : VectorHolds (outputBytes file) (textsOf serde exported)) (some_exported : exported ≠ [])
    (finite : AllFinite exported) (exporter : VectorExporter) (createdAt : Bytes) :
    (∀ document, (exporter.exportDocument serde createdAt file document).result ≠ .ok () →
      (Harmless serde double exported exporter (exporter.exportDocument serde createdAt file document) ↔
        HarmlessWhen serde exporter [document] false (outputBytes file))) ∧
    ∀ documents, (exporter.exportBatch serde createdAt file documents).result ≠ .ok () →
      (Harmless serde double exported exporter (exporter.exportBatch serde createdAt file documents) ↔
        HarmlessWhen serde exporter documents true (outputBytes file)) := by
  rcases holds with ⟨none, -⟩ | ⟨more, room, header, closed⟩
  · exact absurd (List.map_eq_nil_iff.mp none) some_exported
  have opened := openForDocuments_opened exporter createdAt (List.length_pos_iff.mpr more) room closed
  constructor
  · intro document rejected
    have loop := exportDocument_loopText spelled exporter document
    rw [exportDocument, opened] at rejected ⊢
    exact harmless_finish_iff spelled finite some_exported room closed loop rejected
  · intro documents rejected
    by_cases nonempty : documents = []
    · exact absurd (by rw [exportBatch, if_pos nonempty]) rejected
    rw [exportBatch, if_neg nonempty, opened] at rejected ⊢
    have loop := writeDocuments_loopText spelled exporter nonempty
    exact harmless_finish_iff spelled finite some_exported room closed loop rejected

end VectorExporter

namespace RefusedChunk

open VectorExporter
open VectorSession.Price (plainSerde plainDouble plainSerde_spelled createdAt document dots)

/-- A file of one document. -/
def single (content : String) : Option Bytes :=
  (VectorExporter.new.exportBatch plainSerde (utf8 createdAt.text) none [document content []]).file

def notANumber : EmbeddedChunk := { document "c" [] with embeddings := some [0x7FC00000] }

def chunks (content : String) : List ExportedChunk := [⟨document content [], none⟩]

theorem single_holds {content : String} (returned : (VectorExporter.new.exportBatch plainSerde
    (utf8 createdAt.text) none [document content []]).result = .ok ()) :
    VectorHolds (outputBytes (single content)) (textsOf plainSerde (chunks content)) :=
  (exportBatch_ok (.inl ⟨rfl, rfl⟩) (by decide) (List.cons_ne_nil _ _) returned).1

theorem chunks_finite (content : String) : AllFinite (chunks content) := by
  intro e member
  rw [List.mem_singleton.mp member]
  nofun

/-- A refused document alone, and one behind another of its batch. -/
def answers : List Exported :=
  [VectorExporter.new.exportDocument plainSerde (utf8 createdAt.text) (single "b") notANumber,
    VectorExporter.new.exportBatch plainSerde (utf8 createdAt.text) (single "b")
      [document "d" [], notANumber]]

theorem refused_broken : VectorHolds (outputBytes (single "b")) (textsOf plainSerde (chunks "b")) ∧
    ∀ answer ∈ answers, answer.result ≠ .ok () ∧ answer.exporter = ⟨some 1⟩ ∧
      ∀ held, ¬ KeepsDocuments plainSerde plainDouble held (outputBytes answer.file) := by
  refine ⟨single_holds (by decide), fun answer member => ?_⟩
  have ran : answers.all (fun answer =>
      let chars := (outputBytes answer.file).map fun b => Char.ofNat b.toNat
      decide (answer.result ≠ .ok ()) && decide (answer.exporter.dimensions = some 1) &&
        (decide (chars.head? = some '\x7b') &&
          decide (Subslice.encodeChars chars = outputBytes answer.file) &&
          decide (fileScan chars ≠ .closed))) = true := by decide +kernel
  have here := List.all_eq_true.mp ran answer member
  simp only [Bool.and_eq_true, decide_eq_true_eq] at here
  obtain ⟨⟨rejected, dimensions⟩, ⟨braced, text⟩, unclosed⟩ := here
  refine ⟨rejected, congrArg VectorExporter.mk dimensions, fun held keeps => ?_⟩
  rw [← text] at keeps
  exact unclosed (fileScan_of_keeps braced keeps)

/-- A refused document is harmless where the cut leaves the closing bracket and its brace. -/
theorem refused_inside_pair : Harmless plainSerde plainDouble (chunks ("é" ++ dots 200)) ⟨some 1⟩
    (exportDocument plainSerde (utf8 createdAt.text) ⟨some 1⟩ (single ("é" ++ dots 200)) notANumber) := by
  have verdict := rejected_harmless_iff plainSerde_spelled (single_holds (by decide))
    (List.cons_ne_nil _ _) (chunks_finite ("é" ++ dots 200)) ⟨some 1⟩ (utf8 createdAt.text)
  refine (verdict.1 notANumber (by decide +kernel)).mpr ⟨.inl nofun, .inr ⟨rfl, ?_, ?_⟩⟩
  · intro finite
    exact absurd (finite _ List.mem_cons_self [0x7FC00000] rfl 0x7FC00000 List.mem_cons_self) (by decide)
  · have inside : (decide (¬ BoundaryScan (outputBytes (single ("é" ++ dots 200)))) &&
        decide (Subslice.AtBoundary (scanStart (outputBytes (single ("é" ++ dots 200))) + 1)
          (outputBytes (single ("é" ++ dots 200)))) &&
        decide (Subslice.AtBoundary (scanStart (outputBytes (single ("é" ++ dots 200))) - 1)
          (outputBytes (single ("é" ++ dots 200))))) = true := by decide +kernel
    simp only [Bool.and_eq_true, decide_eq_true_eq] at inside
    exact ⟨inside.1.1, inside.1.2, inside.2⟩

end RefusedChunk

end Webfang.Export
