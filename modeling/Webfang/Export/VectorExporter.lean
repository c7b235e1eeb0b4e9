import Webfang.Export.JsonlExporter
import Webfang.Library.Subslice

/-!
# Vector exporter

`infrastructure/export/vector_exporter.rs`: one JSON document whose header keeps a window of
fixed width for the number of documents. An append cuts the file at its last closing
bracket, writes the document and a new closing, and patches the count in place.
-/
namespace Webfang.Export

open Library Domain Segments

def countFieldWidth : Nat := 10

def headerScanBytes : Nat := 512

/-- The bytes from the end in which the closing bracket is looked for. -/
def bracketScanBytes : Nat := 256

def comma : UInt8 := 0x2C

def quotationMark : UInt8 := 0x22

def openingBracket : UInt8 := 0x5B

def closingBracket : UInt8 := 0x5D

def totalMarker : Bytes := utf8 "\"total_documents\": "

def documentsMarker : Bytes := utf8 "\"documents\": ["

def createdAtMarker : Bytes := utf8 "\"created_at\": \""

def closing : Bytes := utf8 "]\x7d\n"

/-- A rendered timestamp: `to_rfc3339` writes no quotation mark, no bracket and no line break. -/
structure Rfc3339 where
  text : String
  plain : ∀ b ∈ utf8 text, b ≠ newline ∧ b ≠ quotationMark ∧ b ≠ openingBracket

/-- The header up to its count window. No document carries embeddings, so the dimensions
stay `null`, right-aligned in their own window. -/
def headerStart : Bytes :=
  utf8 "\x7b\"format_version\": \"1.0\", \"model_name\": null, \"dimensions\":     null, \"total_documents\": "

def countField (count : Nat) : Bytes := utf8 (Text.padLeft countFieldWidth (toString count))

/-- A header without its documents marker. -/
def headerWithCount (count createdAt : Bytes) : Bytes :=
  headerStart ++ count ++ utf8 ", \"created_at\": \"" ++ createdAt ++ utf8 "\", "

def buildHeaderLine (createdAt : Bytes) : Bytes :=
  headerWithCount (countField 0) createdAt ++ documentsMarker

def documentValue (document : DocumentChunk) : Json :=
  .obj ([
    ("id", .str document.id),
    ("url", .str document.url),
    ("title", .str document.title),
    ("content", .str document.content),
    ("metadata", .obj (document.metadata.map fun (key, value) => (key, .str value))),
    ("timestamp", .str document.timestamp)] ++
    WebfangMetadata.optional "correlation_id" (document.correlationId.map .str))

def serializeDocument (crates : ExportCrates) (document : DocumentChunk) : Bytes :=
  utf8 (crates.toString (documentValue document))

/-- `set_len`: a longer file is filled with zeros. -/
def setLen (bytes : Bytes) (len : Nat) : Bytes :=
  bytes.take len ++ List.replicate (len - bytes.length) 0

def bracketWindow (bytes : Bytes) : Bytes := bytes.drop (bytes.length - bracketScanBytes)

/-- The offset of the bracket is measured in the decoded window. -/
def truncateAtBracket (bytes : Bytes) : Bytes :=
  match rposition (· == closingBracket) (Subslice.fromUtf8Lossy (bracketWindow bytes)) with
  | none => bytes
  | some lastBracket => setLen bytes (bytes.length - bracketScanBytes + lastBracket)

def readHeaderBytes (bytes : Bytes) : Bytes := bytes.take headerScanBytes

def parseCountField (field : Bytes) : Except ExporterError Nat :=
  match fromUtf8 field with
  | none => .error (.writeError "vector export total_documents field is not valid UTF-8")
  | some text =>
    match Text.parseUsize (Text.trim text) with
    | none => .error (.writeError
        ("vector export total_documents field holds an unparsable count: " ++ Text.debug text))
    | some count => .ok count

def countDocuments (bytes : Bytes) : Nat := bytes.count newline

def extractCreatedAt (head : Bytes) : Option Bytes :=
  (Subslice.find createdAtMarker head).bind fun found =>
    let value := head.drop (found + createdAtMarker.length)
    (value.findIdx? (· == quotationMark)).bind fun ended =>
      let createdAt := value.take ended
      if (fromUtf8 createdAt).isSome then some createdAt else none

/-- The result of a step on the open file: an error with the file it leaves, or a value with
the file. -/
abbrev OnFile (α : Type) := Except (ExporterError × Bytes) (α × Bytes)

/-- `io::Error` converts into the directory variant wherever `?` meets it. -/
def ioError (env : AppendEnv) : ExporterError := .directoryCreation env.reason

def migrateLegacyHeader (env : AppendEnv) (bytes : Bytes) : OnFile Nat :=
  let head := readHeaderBytes bytes
  match Subslice.find documentsMarker head with
  | none => .error (.writeError "vector export header is missing the documents array", bytes)
  | some found =>
    match extractCreatedAt head with
    | none => .error (.writeError "vector export header is missing created_at", bytes)
    | some createdAt =>
      let body := bytes.drop (found + documentsMarker.length)
      let migrated := buildHeaderLine createdAt ++ body
      match env.fault with
      | some (.migration written) =>
        .error (ioError env, migrated.take written ++ bytes.drop written)
      | _ => .ok (countDocuments bytes, migrated)

/-- How many documents a cut file holds. -/
def readAppendState (env : AppendEnv) (bytes : Bytes) : OnFile Nat :=
  let head := readHeaderBytes bytes
  match Subslice.find totalMarker head with
  | none => .error (.writeError "vector export header is missing the total_documents field", bytes)
  | some found =>
    let valueStart := found + totalMarker.length
    if head[valueStart + countFieldWidth]? = some comma then
      match parseCountField ((head.drop valueStart).take countFieldWidth) with
      | .error e => .error (e, bytes)
      | .ok 0 => .ok (countDocuments bytes, bytes)
      | .ok count => .ok (count, bytes)
    else migrateLegacyHeader env bytes

/-- `close_json` after the closing was written: the count is patched in place. -/
def patchCount (env : AppendEnv) (bytes : Bytes) (total : Nat) : Except ExporterError Unit × Bytes :=
  let head := readHeaderBytes bytes
  let value := countField total
  if value.length ≠ countFieldWidth then
    (.error (.writeError
      s!"vector export total_documents value does not fit the reserved {countFieldWidth}-byte window"),
      bytes)
  else
    match Subslice.find totalMarker head with
    | none =>
      (.error (.writeError "vector export header is missing the total_documents field"), bytes)
    | some found =>
      let valueStart := found + totalMarker.length
      if head[valueStart + countFieldWidth]? ≠ some comma then
        (.error (.writeError "vector export header layout mismatch around total_documents"), bytes)
      else
        match env.fault with
        | some (.patch written) =>
          (.error (ioError env), Subslice.overwrite bytes valueStart (value.take written))
        | _ => (.ok (), Subslice.overwrite bytes valueStart value)

/-- Write the text of one document with its closing at the end, then patch the count. -/
def writeAndClose (env : AppendEnv) (bytes text : Bytes) (total : Nat) :
    Except ExporterError Unit × Bytes :=
  match env.fault with
  | some (.append written) => (.error (ioError env), bytes ++ (text ++ closing).take written)
  | _ => patchCount env (bytes ++ text ++ closing) total

/-- `writer()`: an existing file is cut, a new one is empty. -/
def openForAppend : Option Bytes → Bytes
  | none => []
  | some bytes => truncateAtBracket bytes

def vectorExport (crates : ExportCrates) (env : AppendEnv) (createdAt : Rfc3339)
    (file : Option Bytes) (document : DocumentChunk) :
    Except ExporterError Unit × Option Bytes :=
  if env.fault = some .directory ∨ env.fault = some .beforeCut then (.error (ioError env), file)
  else
    let opened := openForAppend file
    if env.fault = some .afterCut then (.error (ioError env), some opened)
    else
      let line := serializeDocument crates document ++ [newline]
      if opened = [] then
        let (result, written) :=
          writeAndClose env [] (buildHeaderLine (utf8 createdAt.text) ++ line) 1
        (result, some written)
      else
        match readAppendState env opened with
        | .error (e, left) => (.error e, some left)
        | .ok (existing, bytes) =>
          let (result, written) := writeAndClose env bytes (comma :: line) (existing + 1)
          (result, some written)

/-! ### The count window -/

theorem utf8_ofList (chars : List Char) :
    utf8 (String.ofList chars) = chars.flatMap String.utf8EncodeChar := by
  simp [utf8, List.utf8Encode]

/-- The characters of the window: spaces, then decimal digits. -/
def countChars (count : Nat) : List Char :=
  List.replicate (countFieldWidth - (Nat.toDigits 10 count).length) ' ' ++ Nat.toDigits 10 count

theorem countField_eq (count : Nat) :
    countField count = (countChars count).map fun c => UInt8.ofNat c.toNat := by
  have ascii : ∀ c ∈ countChars count, String.utf8EncodeChar c = [UInt8.ofNat c.toNat] := by
    intro c member
    have small : c.toNat ≤ 0x7F := by
      rcases List.mem_append.mp member with space | digit
      · rw [List.eq_of_mem_replicate space]
        decide
      · have shown := Nat.isDigit_of_mem_toDigits (by decide) (by decide) digit
        rw [Char.isDigit_iff_toNat] at shown
        simp only [Char.reduceToNat] at shown
        omega
    simp only [String.utf8EncodeChar]
    exact if_pos small
  have written : Text.padLeft countFieldWidth (toString count) = String.ofList (countChars count) := by
    simp [Text.padLeft, countChars]
  rw [countField, written, utf8_ofList]
  generalize countChars count = chars at ascii
  induction chars with
  | nil => rfl
  | cons c rest ih =>
    rw [List.flatMap_cons, ascii c List.mem_cons_self,
      ih fun d member => ascii d (List.mem_cons_of_mem _ member)]
    rfl

theorem notMem_countField {b : UInt8} (other : b.toNat < 0x20 ∨ 0x39 < b.toNat) (count : Nat) :
    b ∉ countField count := by
  rw [countField_eq]
  intro member
  obtain ⟨c, listed, rfl⟩ := List.mem_map.mp member
  rcases List.mem_append.mp listed with space | digit
  · rw [List.eq_of_mem_replicate space] at other
    exact absurd other (by decide)
  · have shown := Nat.isDigit_of_mem_toDigits (by decide) (by decide) digit
    rw [Char.isDigit_iff_toNat] at shown
    simp only [Char.reduceToNat] at shown
    rw [UInt8.toNat_ofNat', Nat.mod_eq_of_lt (by omega)] at other
    omega

theorem newline_notMem_countField (count : Nat) : newline ∉ countField count :=
  notMem_countField (.inl (by decide)) count

theorem length_countField_iff (count : Nat) :
    (countField count).length = countFieldWidth ↔ count < 10 ^ countFieldWidth := by
  have digits := Nat.length_toDigits_le_iff (b := 10) (n := count) (k := countFieldWidth)
    (by decide) (by decide)
  rw [← digits, countField_eq, List.length_map, countChars, List.length_append,
    List.length_replicate]
  omega

/-- The window reads back the count it was written for. -/
theorem parseCountField_countField {count : Nat} (bounded : count < 2 ^ 64) :
    parseCountField (countField count) = .ok count := by
  rw [parseCountField, countField, fromUtf8_utf8]
  dsimp only
  rw [Text.trim_padLeft, Text.parseUsize_toString bounded]

/-! ### The cut -/

theorem rposition_closing (bytes : Bytes) :
    rposition (· == closingBracket) (bytes ++ closing) = some bytes.length := by
  have last : closing = [closingBracket, 0x7D, newline] := by decide
  have fromEnd : (bytes ++ closing).reverse.findIdx? (· == closingBracket) = some 2 := by
    rw [List.reverse_append, last]
    rfl
  rw [rposition, fromEnd, last]
  simp

/-- A file that ends in the closing is cut exactly there, unless its last bytes decode with
a replacement. -/
theorem truncateAtBracket_closing {opened : Bytes}
    (decodes : Subslice.fromUtf8Lossy (bracketWindow (opened ++ closing)) =
      bracketWindow (opened ++ closing)) :
    truncateAtBracket (opened ++ closing) = opened := by
  have size : closing.length = 3 := by decide
  have window : bracketWindow (opened ++ closing) =
      opened.drop ((opened ++ closing).length - bracketScanBytes) ++ closing := by
    rw [bracketWindow, List.drop_append_of_le_length]
    simp only [List.length_append, size, bracketScanBytes]
    omega
  have offset : (opened ++ closing).length - bracketScanBytes +
      (opened.drop ((opened ++ closing).length - bracketScanBytes)).length = opened.length := by
    simp only [List.length_append, List.length_drop, size, bracketScanBytes]
    omega
  unfold truncateAtBracket
  rw [decodes, window, rposition_closing]
  dsimp only
  rw [offset, setLen]
  simp

theorem truncateAtBracket_nil : truncateAtBracket [] = [] := by decide

theorem openForAppend_eq (file : Option Bytes) :
    openForAppend file = truncateAtBracket (outputBytes file) := by
  cases file with
  | none => exact truncateAtBracket_nil.symm
  | some bytes => rfl

/-! ### What an append keeps -/

/-- `document` is one of the documents of the file: what follows the header on the first
line, or the comma on a later one. -/
def HoldsDocument (bytes document : Bytes) : Prop :=
  (∃ header, (segments newline bytes).head? =
    some (header ++ documentsMarker ++ document ++ [newline])) ∨
    comma :: document ++ [newline] ∈ (segments newline bytes).tail

/-- A part of the header in front of the documents: no line ends in it, and no array begins. -/
structure PlainHeader (header : Bytes) : Prop where
  oneLine : newline ∉ header
  unopened : openingBracket ∉ header

/-- A file cut at its closing bracket, as the exporter left it: a header on the first line
with its fields inside, and at least one document. -/
structure VectorLayout (opened header body : Bytes) : Prop where
  split : opened = header ++ (documentsMarker ++ body ++ [newline])
  plain : PlainHeader header
  window : ∀ found, Subslice.find totalMarker (readHeaderBytes opened) = some found →
    found + totalMarker.length + countFieldWidth ≤ header.length
  created : ∀ createdAt, extractCreatedAt (readHeaderBytes opened) = some createdAt →
    PlainHeader createdAt

/-- The file is empty, or it ends in the closing that an append looks for and finds. -/
def AppendReady (bytes : Bytes) : Prop :=
  bytes = [] ∨ ∃ opened header body, bytes = opened ++ closing ∧
    Subslice.fromUtf8Lossy (bracketWindow bytes) = bracketWindow bytes ∧
    VectorLayout opened header body

theorem holdsDocument_nil (document : Bytes) : ¬ HoldsDocument [] document := by
  rintro (⟨header, first⟩ | later)
  · cases first
  · cases later

/-- More bytes after whole lines add lines only. -/
theorem HoldsDocument.append {bytes document : Bytes} (held : HoldsDocument bytes document)
    (ended : Terminated newline bytes) (after : Bytes) : HoldsDocument (bytes ++ after) document := by
  unfold HoldsDocument at *
  rw [segments_append after ended]
  cases read : segments newline bytes with
  | nil =>
    rw [read] at held
    rcases held with ⟨header, first⟩ | later
    · cases first
    · cases later
  | cons line rest =>
    rw [read] at held
    rcases held with first | later
    · exact .inl first
    · exact .inr (List.mem_append_left _ later)

/-- A line of documents, or the closing, behind whole lines. -/
theorem HoldsDocument.of_append {bytes after document : Bytes} (ended : Terminated newline bytes)
    (more : bytes ≠ []) (held : HoldsDocument (bytes ++ after) document) :
    HoldsDocument bytes document ∨ comma :: document ++ [newline] ∈ segments newline after := by
  unfold HoldsDocument at *
  rw [segments_append after ended] at held
  cases read : segments newline bytes with
  | nil => exact absurd (segments_eq_nil_iff.mp read) more
  | cons line rest =>
    rw [read] at held
    rcases held with first | later
    · exact .inl (.inl first)
    · exact (List.mem_append.mp later).imp_left .inr

theorem ne_closing (document : Bytes) : comma :: document ++ [newline] ≠ closing := fun same =>
  absurd (List.cons.inj same).1 (by decide)

/-- The first bracket of the file is that of the documents. -/
theorem marker_unique {header front rest after : Bytes} (unopened : openingBracket ∉ header)
    (same : header ++ (documentsMarker ++ rest) = front ++ (documentsMarker ++ after)) :
    header.length ≤ front.length := by
  by_contra shorter
  obtain ⟨name, flat, marker⟩ : ∃ name, openingBracket ∉ name ∧
      documentsMarker = name ++ [openingBracket] := ⟨documentsMarker.dropLast, by decide, by decide⟩
  have inside : front ++ documentsMarker <+: header ++ name := by
    refine List.prefix_of_prefix_length_le ⟨after, (List.append_assoc ..).trans same.symm⟩
      ⟨openingBracket :: rest, by rw [marker]; simp⟩ ?_
    simp only [marker, List.length_append, List.length_singleton]
    omega
  have found := inside.subset (List.mem_append_right _ (show openingBracket ∈ documentsMarker by decide))
  exact (List.mem_append.mp found).elim unopened flat

theorem find_documentsMarker {header : Bytes} (unopened : openingBracket ∉ header) (after : Bytes) :
    Subslice.find documentsMarker (header ++ (documentsMarker ++ after)) = some header.length := by
  obtain ⟨offset, found, early⟩ := Subslice.find_le header after (show documentsMarker ≠ [] by decide)
  obtain ⟨front, rest, split, rfl⟩ := Subslice.find_eq_some found
  rw [List.append_assoc, List.append_assoc] at split
  rw [← List.append_assoc, found, Nat.le_antisymm early (marker_unique unopened split)]

theorem HoldsDocument.reheader {header header' documents document : Bytes} (plain : PlainHeader header)
    (oneLine' : newline ∉ header') (held : HoldsDocument (header ++ (documentsMarker ++ documents)) document) :
    HoldsDocument (header' ++ (documentsMarker ++ documents)) document := by
  have more : documentsMarker ++ documents ≠ [] := by simp [show documentsMarker ≠ [] by decide]
  obtain ⟨line, rest, read, joined⟩ := segments_prepend plain.oneLine more
  obtain ⟨line', rest', read', joined'⟩ := segments_prepend oneLine' more
  obtain ⟨rfl, rfl⟩ : line = line' ∧ rest = rest' := by
    rw [read] at read'
    cases read'
    exact ⟨rfl, rfl⟩
  unfold HoldsDocument at *
  rw [joined] at held
  rw [joined']
  rcases held with ⟨front, same⟩ | later
  · -- the marker of the line is not before the first one, so it is part of the documents
    refine .inl ?_
    have whole : header ++ line = front ++ documentsMarker ++ document ++ [newline] :=
      Option.some.inj same
    have parts := segments_flatten newline (documentsMarker ++ documents)
    rw [read, List.flatten_cons] at parts
    have same : header ++ (documentsMarker ++ documents) =
        front ++ (documentsMarker ++ (document ++ [newline] ++ rest.flatten)) := by
      rw [← parts, ← List.append_assoc, whole]
      simp
    have bounded : header.length ≤ front.length := marker_unique plain.unopened same
    obtain ⟨tail, rfl⟩ : header <+: front :=
      List.prefix_of_prefix_length_le ⟨line, rfl⟩ ⟨documentsMarker ++ document ++ [newline], by simp [whole]⟩
        bounded
    have lineSplit : line = tail ++ documentsMarker ++ document ++ [newline] := by
      simpa [List.append_assoc] using whole
    exact ⟨header' ++ tail, by simp [lineSplit]⟩
  · exact .inr later

/-- The count window that a search from the start finds lies in the header. -/
def CountWithin (bytes header : Bytes) : Prop :=
  ∃ found, Subslice.find totalMarker (readHeaderBytes bytes) = some found ∧
    found + totalMarker.length + countFieldWidth ≤ header.length

theorem CountWithin.append {bytes header : Bytes} (within : CountWithin bytes header)
    (after : Bytes) : CountWithin (bytes ++ after) header := by
  obtain ⟨found, searched, inside⟩ := within
  exact ⟨found, Subslice.find_take_append after searched, inside⟩

theorem newline_notMem_headerWithCount {count createdAt : Bytes} (plainCount : newline ∉ count)
    (plain : newline ∉ createdAt) : newline ∉ headerWithCount count createdAt := by
  have fixed : newline ∉ headerStart ∧ newline ∉ utf8 ", \"created_at\": \"" ∧ newline ∉ utf8 "\", " := by
    decide
  simp [headerWithCount, fixed, plainCount, plain]

theorem plainHeader_new {createdAt : Bytes} (plain : PlainHeader createdAt) :
    PlainHeader (headerWithCount (countField 0) createdAt) where
  oneLine := newline_notMem_headerWithCount (newline_notMem_countField 0) plain.oneLine
  unopened := by
    have fixed : openingBracket ∉ headerStart ∧ openingBracket ∉ utf8 ", \"created_at\": \"" ∧
        openingBracket ∉ utf8 "\", " := by
      decide
    have count := notMem_countField (b := openingBracket) (.inr (by decide)) 0
    simp [headerWithCount, fixed, count, plain.unopened]

/-- A header of the current layout has its count window where the search finds it. -/
theorem countWithin_headerWithCount {count : Bytes} (size : count.length = countFieldWidth)
    (createdAt after : Bytes) :
    CountWithin (headerWithCount count createdAt ++ after) (headerWithCount count createdAt) := by
  have marked : Subslice.find totalMarker (headerStart.take headerScanBytes) =
      some (headerStart.length - totalMarker.length) := by decide
  have room : totalMarker.length ≤ headerStart.length := by decide
  have split : headerWithCount count createdAt ++ after = headerStart ++
      (count ++ utf8 ", \"created_at\": \"" ++ createdAt ++ utf8 "\", " ++ after) := by
    simp [headerWithCount]
  refine ⟨headerStart.length - totalMarker.length, ?_, ?_⟩
  · rw [split]
    exact Subslice.find_take_append _ marked
  · simp only [headerWithCount, List.length_append, size]
    omega

/-- The count is read, or the header migrated, in front of the same documents. -/
theorem readAppendState_layout (env : AppendEnv) {opened header body : Bytes}
    (layout : VectorLayout opened header body)
    (unmigrated : ∀ written, env.fault ≠ some (.migration written)) :
    (∃ e, readAppendState env opened = .error (e, opened)) ∨
      ∃ count header', PlainHeader header' ∧
        CountWithin (header' ++ (documentsMarker ++ body ++ [newline])) header' ∧
        readAppendState env opened =
          .ok (count, header' ++ (documentsMarker ++ body ++ [newline])) := by
  unfold readAppendState
  dsimp only
  cases searched : Subslice.find totalMarker (readHeaderBytes opened) with
  | none => exact .inl ⟨_, rfl⟩
  | some found =>
    have within : CountWithin opened header := ⟨found, searched, layout.window found searched⟩
    rw [layout.split] at within
    dsimp only
    -- a comma behind the window says that the header has the current form
    split
    next =>
      cases parseCountField (((readHeaderBytes opened).drop (found + totalMarker.length)).take
          countFieldWidth) with
      | error e => exact .inl ⟨e, rfl⟩
      | ok count =>
        refine .inr ?_
        cases count with
        | zero => exact ⟨countDocuments opened, header, layout.plain, within, by simp [layout.split]⟩
        | succ count => exact ⟨count + 1, header, layout.plain, within, by simp [layout.split]⟩
    next =>
      unfold migrateLegacyHeader
      dsimp only
      cases marked : Subslice.find documentsMarker (readHeaderBytes opened) with
      | none => exact .inl ⟨_, rfl⟩
      | some start =>
        cases created : extractCreatedAt (readHeaderBytes opened) with
        | none => exact .inl ⟨_, rfl⟩
        | some createdAt =>
          refine .inr ⟨countDocuments opened, headerWithCount (countField 0) createdAt, ?_, ?_, ?_⟩
          · exact plainHeader_new (layout.created createdAt created)
          · exact countWithin_headerWithCount (by decide) _ _
          · -- the marker of the scanned head is the first one of the file
            have whole := Subslice.find_append (opened.drop headerScanBytes) marked
            rw [readHeaderBytes, List.take_append_drop, layout.split, List.append_assoc,
              find_documentsMarker layout.plain.unopened] at whole
            cases whole
            have body_ : opened.drop (header.length + documentsMarker.length) = body ++ [newline] := by
              rw [layout.split, ← List.append_assoc, ← List.append_assoc, List.append_assoc _ body]
              exact List.drop_left' (by simp)
            dsimp only
            rw [body_, buildHeaderLine]
            split
            next written faulty => exact absurd faulty (unmigrated written)
            next => simp

theorem patchCount_header (env : AppendEnv) {header after : Bytes} (plain : PlainHeader header)
    (within : CountWithin (header ++ after) header) (total : Nat) :
    ∃ result header', PlainHeader header' ∧
      patchCount env (header ++ after) total = (result, header' ++ after) := by
  obtain ⟨found, searched, inside⟩ := within
  unfold patchCount
  dsimp only
  rw [searched]
  split
  next => exact ⟨_, header, plain, rfl⟩
  next size =>
    dsimp only
    have full : (countField total).length = countFieldWidth := not_not.mp size
    -- whatever part of the count is written, it stays in the header's line
    have patched (value : Bytes) (written : value <+: countField total) :
        ∃ header', PlainHeader header' ∧
          Subslice.overwrite (header ++ after) (found + totalMarker.length) value =
            header' ++ after := by
      have short := written.length_le
      have kept {b : UInt8} (absent : b ∉ header) (other : b.toNat < 0x20 ∨ 0x39 < b.toNat) :
          b ∉ Subslice.overwrite header (found + totalMarker.length) value := by
        simp only [Subslice.overwrite, List.mem_append]
        rintro ((before | value) | behind)
        · exact absent (List.mem_of_mem_take before)
        · exact notMem_countField other total (written.subset value)
        · exact absent (List.mem_of_mem_drop behind)
      exact ⟨_, ⟨kept plain.oneLine (.inl (by decide)), kept plain.unopened (.inr (by decide))⟩,
        Subslice.overwrite_append (by omega)⟩
    split
    next => exact ⟨_, header, plain, rfl⟩
    next =>
      split
      next written _ =>
        obtain ⟨header', plain', same⟩ := patched _ (List.take_prefix written _)
        exact ⟨_, header', plain', by rw [same]⟩
      next =>
        obtain ⟨header', plain', same⟩ := patched _ (List.prefix_refl _)
        exact ⟨_, header', plain', by rw [same]⟩

theorem writeAndClose_untorn {env : AppendEnv}
    (untorn : ∀ written, env.fault ≠ some (.append written)) (bytes text : Bytes) (total : Nat) :
    writeAndClose env bytes text total = patchCount env (bytes ++ text ++ closing) total := by
  unfold writeAndClose
  split
  next written faulty => exact absurd faulty (untorn written)
  next => rfl

theorem holdsDocument_first {header document : Bytes} (oneLine : newline ∉ header)
    (flat : newline ∉ document) (after : Bytes) :
    HoldsDocument (header ++ (documentsMarker ++ document ++ [newline] ++ after)) document := by
  have marker : newline ∉ documentsMarker := by decide
  have line : newline ∉ header ++ documentsMarker ++ document := by simp [oneLine, marker, flat]
  have split : header ++ (documentsMarker ++ document ++ [newline] ++ after) =
      header ++ documentsMarker ++ document ++ [newline] ++ after := by simp
  refine .inl ⟨header, ?_⟩
  rw [split, segments_append _ (.inr ⟨_, rfl⟩), segments_line line]
  rfl

theorem holdsDocument_later {before document : Bytes} (ended : Terminated newline before)
    (more : before ≠ []) (flat : newline ∉ document) (after : Bytes) :
    HoldsDocument (before ++ (comma :: document ++ [newline] ++ after)) document := by
  have separator : newline ≠ comma := by decide
  have line : newline ∉ comma :: document := by simp [separator, flat]
  refine .inr ?_
  rw [segments_append _ ended, segments_append after (.inr ⟨comma :: document, rfl⟩),
    segments_line line]
  cases read : segments newline before with
  | nil => exact absurd (segments_eq_nil_iff.mp read) more
  | cons first rest => simp

/-- A fault that comes neither with the directory nor before the cut is excluded. -/
theorem fault_eq_none {env : AppendEnv}
    (early : ∀ fault, env.fault = some fault → fault = .directory ∨ fault = .beforeCut)
    (late : ¬ (env.fault = some .directory ∨ env.fault = some .beforeCut)) : env.fault = none := by
  cases fault : env.fault with
  | none => rfl
  | some fault_ => exact absurd ((early fault_ fault).imp (· ▸ fault) (· ▸ fault)) late

/-- A new file is one header line with the first document behind its marker. -/
theorem writeAndClose_first {env : AppendEnv}
    (untorn : ∀ written, env.fault ≠ some (.append written)) (createdAt : Rfc3339) (document : Bytes) :
    ∃ patched header, PlainHeader header ∧
      writeAndClose env [] (buildHeaderLine (utf8 createdAt.text) ++ (document ++ [newline])) 1 =
        (patched, header ++ (documentsMarker ++ document ++ [newline] ++ closing)) := by
  have plain : PlainHeader (utf8 createdAt.text) :=
    ⟨fun member => (createdAt.plain _ member).1 rfl, fun member => (createdAt.plain _ member).2.2 rfl⟩
  have text : [] ++ (buildHeaderLine (utf8 createdAt.text) ++ (document ++ [newline])) ++ closing =
      headerWithCount (countField 0) (utf8 createdAt.text) ++
        (documentsMarker ++ document ++ [newline] ++ closing) := by
    simp [buildHeaderLine]
  have within := countWithin_headerWithCount ((length_countField_iff 0).mpr (by decide))
    (utf8 createdAt.text) (documentsMarker ++ document ++ [newline] ++ closing)
  obtain ⟨patched, header, plain', wrote⟩ := patchCount_header env (plainHeader_new plain) within 1
  rw [writeAndClose_untorn untorn, text, wrote]
  exact ⟨patched, header, plain', rfl⟩

/-- A later document goes behind the lines there are, under a header of one line. -/
theorem writeAndClose_later {env : AppendEnv}
    (untorn : ∀ written, env.fault ≠ some (.append written)) {header lines : Bytes}
    (plain : PlainHeader header) (within : CountWithin (header ++ lines) header) (document : Bytes)
    (total : Nat) :
    ∃ patched header', PlainHeader header' ∧
      writeAndClose env (header ++ lines) (comma :: (document ++ [newline])) total =
        (patched, header' ++ lines ++ (comma :: document ++ [newline] ++ closing)) := by
  have text : header ++ lines ++ (comma :: (document ++ [newline])) ++ closing =
      header ++ (lines ++ (comma :: document ++ [newline] ++ closing)) := by
    simp
  have within' := within.append (comma :: document ++ [newline] ++ closing)
  rw [List.append_assoc] at within'
  obtain ⟨patched, header', plain', wrote⟩ := patchCount_header env plain within' total
  rw [writeAndClose_untorn untorn, text, wrote]
  exact ⟨patched, header', plain', by rw [List.append_assoc header']⟩

/-- The append ends before it changes the file: at its first calls, or at a file in which it finds
no bracket to cut at and no header that it reads. -/
def RefusedUncut (env : AppendEnv) (bytes : Bytes) : Prop :=
  env.fault = some .directory ∨ env.fault = some .beforeCut ∨
    bytes ≠ [] ∧ truncateAtBracket bytes = bytes ∧
      (env.fault = some .afterCut ∨ ∃ e, readAppendState env bytes = .error (e, bytes))

theorem vectorExport_refused (crates : ExportCrates) {env : AppendEnv} (createdAt : Rfc3339)
    {file file' : Option Bytes} {document : DocumentChunk} {result : Except ExporterError Unit}
    (refused : RefusedUncut env (outputBytes file))
    (returned : vectorExport crates env createdAt file document = (result, file')) :
    outputBytes file' = outputBytes file ∧ result ≠ .ok () := by
  unfold vectorExport at returned
  split at returned
  next =>
    cases returned
    exact ⟨rfl, nofun⟩
  next late =>
    obtain ⟨filled, uncut, stops⟩ := (refused.resolve_left fun directory => late (.inl directory)).resolve_left
      fun before => late (.inr before)
    dsimp only at returned
    rw [openForAppend_eq, uncut] at returned
    split at returned
    next =>
      cases returned
      exact ⟨rfl, nofun⟩
    next going =>
      obtain ⟨e, refused⟩ := stops.resolve_left going
      rw [refused] at returned
      cases returned
      exact ⟨rfl, nofun⟩

/-- The marker does not begin again within itself. -/
theorem eq_nil_of_marker {document tail held : Bytes} (unmarked : ¬ documentsMarker <:+: document)
    (same : documentsMarker ++ document = tail ++ (documentsMarker ++ held)) : tail = [] := by
  have overlap : ∀ k ≤ documentsMarker.length, documentsMarker.drop k <+: documentsMarker →
      k = 0 ∨ k = documentsMarker.length := by
    decide
  rcases List.append_eq_append_iff.mp same with ⟨front, rfl, split⟩ | ⟨rest, split, behind⟩
  · exact absurd ⟨front, held, by rw [List.append_assoc, split]⟩ unmarked
  · have size := congrArg List.length split
    have again : rest <+: documentsMarker :=
      List.prefix_of_prefix_length_le ⟨document, behind.symm⟩ (List.prefix_append ..) (by simp [size])
    have cut : rest = documentsMarker.drop tail.length := by rw [split, List.drop_left]
    rw [List.length_append] at size
    rcases overlap tail.length (by omega) (cut ▸ again) with none | all
    · exact List.length_eq_zero_iff.mp none
    · rw [List.length_eq_zero_iff.mp (show rest.length = 0 by omega), List.nil_append] at behind
      exact absurd (behind ▸ (List.prefix_append ..).isInfix) unmarked

/-- The first line of a new file holds the one document behind its header. -/
theorem eq_of_first {header document held : Bytes} (plain : PlainHeader header) (flat : newline ∉ document)
    (unmarked : ¬ documentsMarker <:+: document)
    (present : HoldsDocument (header ++ (documentsMarker ++ document ++ [newline] ++ closing)) held) :
    held = document := by
  have marker : newline ∉ documentsMarker := by decide
  have lines : segments newline (header ++ (documentsMarker ++ document ++ [newline] ++ closing)) =
      [header ++ documentsMarker ++ document ++ [newline], closing] := by
    have split : header ++ (documentsMarker ++ document ++ [newline] ++ closing) =
        header ++ documentsMarker ++ document ++ [newline] ++ closing := by simp
    rw [split, segments_append _ (.inr ⟨_, rfl⟩), segments_line (by simp [plain.oneLine, marker, flat])]
    rfl
  rw [HoldsDocument, lines] at present
  rcases present with ⟨front, first⟩ | later
  · have same := List.append_cancel_right (Option.some.inj first)
    rw [List.append_assoc, List.append_assoc] at same
    obtain ⟨tail, rfl⟩ := List.prefix_of_prefix_length_le ⟨_, same⟩ (List.prefix_append ..)
      (marker_unique plain.unopened same)
    rw [List.append_assoc, List.append_cancel_left_eq] at same
    rw [eq_nil_of_marker unmarked same, List.nil_append, List.append_cancel_left_eq] at same
    exact same.symm
  · exact absurd (List.mem_singleton.mp later) (ne_closing held)

/-- What an append makes of the documents, when it leaves the file alone or finds it ready and does
not fail: it keeps them, it brings none but its own, and its own if it succeeds. -/
theorem vectorExport_holds (crates : ExportCrates) {env : AppendEnv} (createdAt : Rfc3339)
    {file file' : Option Bytes} {document : DocumentChunk} {result : Except ExporterError Unit}
    (safe : RefusedUncut env (outputBytes file) ∨ AppendReady (outputBytes file) ∧ env.fault = none)
    (flat : newline ∉ serializeDocument crates document)
    (unmarked : ¬ documentsMarker <:+: serializeDocument crates document)
    (returned : vectorExport crates env createdAt file document = (result, file')) :
    (∀ held, HoldsDocument (outputBytes file) held → HoldsDocument (outputBytes file') held) ∧
      (∀ held, HoldsDocument (outputBytes file') held →
        HoldsDocument (outputBytes file) held ∨ held = serializeDocument crates document) ∧
      (result = .ok () →
        HoldsDocument (outputBytes file') (serializeDocument crates document)) := by
  rcases safe with refused | ⟨ready, healthy⟩
  · obtain ⟨same, failed⟩ := vectorExport_refused crates createdAt refused returned
    rw [same]
    exact ⟨fun _ held => held, fun _ held => .inl held, fun ok => absurd ok failed⟩
  have untorn : ∀ written, env.fault ≠ some (.append written) := by simp [healthy]
  unfold vectorExport at returned
  rw [if_neg (by simp [healthy])] at returned
  dsimp only at returned
  rw [openForAppend_eq, if_neg (by simp [healthy])] at returned
  rcases ready with empty | ⟨opened, header, body, closed, decodes, layout⟩
  · -- the first document of a new file
    obtain ⟨patched, header, plain, wrote⟩ :=
      writeAndClose_first untorn createdAt (serializeDocument crates document)
    rw [empty] at returned ⊢
    rw [if_pos truncateAtBracket_nil, wrote] at returned
    cases returned
    refine ⟨fun held present => absurd present (holdsDocument_nil held), fun held present => .inr ?_,
      fun _ => holdsDocument_first plain.oneLine flat closing⟩
    exact eq_of_first plain flat unmarked present
  · -- the closing is cut, and the documents stay under a header that may be a new one
    have more : opened ≠ [] := by simp [layout.split]
    have ended : Terminated newline opened :=
      .inr ⟨header ++ documentsMarker ++ body, by simp [layout.split]⟩
    have same {held : Bytes} : HoldsDocument (outputBytes file) held ↔ HoldsDocument opened held := by
      rw [closed]
      refine ⟨fun present => (present.of_append ended more).resolve_right fun line => ?_,
        fun present => present.append ended closing⟩
      have last : segments newline closing = [closing] := by decide
      exact ne_closing held (List.mem_singleton.mp (last ▸ line))
    simp only [same]
    rw [closed] at decodes
    rw [closed, truncateAtBracket_closing decodes, if_neg more] at returned
    obtain ⟨e, failed⟩ | ⟨count, header', plain, within, read⟩ :=
      readAppendState_layout env layout (by simp [healthy])
    · rw [failed] at returned
      cases returned
      exact ⟨fun _ present => present, fun _ present => .inl present, nofun⟩
    · rw [read] at returned
      dsimp only at returned
      obtain ⟨patched, header'', plain'', wrote⟩ := writeAndClose_later untorn plain within
        (serializeDocument crates document) (count + 1)
      rw [wrote] at returned
      cases returned
      have ended'' : Terminated newline (header'' ++ (documentsMarker ++ body ++ [newline])) :=
        .inr ⟨header'' ++ documentsMarker ++ body, by simp⟩
      have moved {held : Bytes} : HoldsDocument opened held ↔
          HoldsDocument (header'' ++ (documentsMarker ++ body ++ [newline])) held := by
        rw [layout.split, List.append_assoc documentsMarker]
        exact ⟨.reheader layout.plain plain''.oneLine, .reheader plain'' layout.plain.oneLine⟩
      simp only [moved]
      refine ⟨fun held present => present.append ended'' _, fun held present => ?_,
        fun _ => holdsDocument_later ended'' (by simp) flat closing⟩
      refine (present.of_append ended'' (by simp)).imp_right fun line => ?_
      have separator : newline ≠ comma := by decide
      have lines : segments newline (comma :: serializeDocument crates document ++ [newline] ++ closing) =
          [comma :: serializeDocument crates document ++ [newline], closing] := by
        rw [segments_append closing (.inr ⟨_, rfl⟩), segments_line (by simp [separator, flat])]
        rfl
      rw [lines] at line
      rcases List.mem_cons.mp line with own | line
      · simpa using own
      · exact absurd (List.mem_singleton.mp line) (ne_closing held)

end Webfang.Export
