import Webfang.Export.VectorBatches
import Webfang.Library.CharBoundary
import Webfang.Library.JsonText

/-!
# The vector file

What a vector file of the present layout holds, how the operations of an append see it, and the
JSON object that its text spells.
-/
namespace Webfang.Export

open Library

/-! ### Header windows -/

theorem utf8_eq (text : String) : utf8 text = Subslice.encodeChars text.toList := by
  have chars := utf8_ofList text.toList
  rwa [String.ofList_toList] at chars

theorem utf8_of_ascii {text : String} (ascii : ∀ c ∈ text.toList, c.toNat < 128) :
    utf8 text = text.toList.map fun c => UInt8.ofNat c.toNat := by
  rw [utf8_eq]
  generalize text.toList = chars at ascii
  induction chars with
  | nil => rfl
  | cons c chars ih =>
    have small : c.toNat ≤ 0x7F := Nat.le_of_lt_succ (ascii c List.mem_cons_self)
    have single : String.utf8EncodeChar c = [UInt8.ofNat c.toNat] := if_pos small
    rw [Subslice.encodeChars_cons, single, ih fun d member => ascii d (List.mem_cons_of_mem _ member)]
    rfl

/-- The characters of a window: spaces, then the number. -/
theorem toList_padLeft (width : Nat) (text : String) : (Text.padLeft width text).toList =
      List.replicate (width - text.toList.length) ' ' ++ text.toList := by
  rw [Text.padLeft, String.toList_ofList]

theorem toList_toString (n : Nat) : (toString n).toList = Nat.toDigits 10 n := by simp

/-- What the characters of a window are. -/
def isFieldChar (c : Char) : Bool := c == ' ' || c.isDigit || "null".toList.contains c

theorem isFieldChar_padLeft {text : String} (plain : ∀ c ∈ text.toList, isFieldChar c = true)
    (width : Nat) : ∀ c ∈ (Text.padLeft width text).toList, isFieldChar c = true := by
  intro c member
  rw [toList_padLeft] at member
  rcases List.mem_append.mp member with space | inside
  · rw [List.eq_of_mem_replicate space]
    decide
  · exact plain c inside

theorem isFieldChar_toString (n : Nat) : ∀ c ∈ (toString n).toList, isFieldChar c = true := by
  intro c member
  rw [toList_toString] at member
  simp [isFieldChar, Nat.isDigit_of_mem_toDigits (by decide) (by decide) member]

theorem isFieldChar_dimensions (dimensions : Option Nat) :
    ∀ c ∈ (Text.padLeft dimFieldWidth (dimensions.elim "null" toString)).toList,
      isFieldChar c = true := by
  apply isFieldChar_padLeft
  cases dimensions with
  | none => exact List.all_eq_true.mp (by decide)
  | some n => exact isFieldChar_toString n

theorem toNat_of_isFieldChar {c : Char} (plain : isFieldChar c = true) :
    c.toNat < 128 ∧ c.toNat ≠ 0x22 := by
  simp only [isFieldChar, Bool.or_eq_true, beq_iff_eq, List.contains_eq_mem, decide_eq_true_eq] at plain
  rcases plain with (rfl | digit) | listed
  · decide
  · rw [Char.isDigit_iff_toNat] at digit
    simp only [Char.reduceToNat] at digit
    omega
  · have each : ("null".toList.all fun c => c.toNat < 128 ∧ c.toNat ≠ 0x22) = true := by decide
    exact List.all_iff_forall_prop.mp each c listed

/-- No window holds the quotation mark with which a marker begins. -/
theorem quotationMark_notMem_utf8 {text : String} (plain : ∀ c ∈ text.toList, isFieldChar c = true) :
    quotationMark ∉ utf8 text := by
  rw [utf8_of_ascii fun c member => (toNat_of_isFieldChar (plain c member)).1]
  intro member
  obtain ⟨c, listed, same⟩ := List.mem_map.mp member
  obtain ⟨small, other⟩ := toNat_of_isFieldChar (plain c listed)
  have value := congrArg UInt8.toNat same
  rw [Subslice.toNat_ofNat_of_lt (by omega)] at value
  exact other value

theorem length_padLeft_iff {width : Nat} (positive : 0 < width) (n : Nat) :
    (utf8 (Text.padLeft width (toString n))).length = width ↔ n < 10 ^ width := by
  have ascii : ∀ c ∈ (Text.padLeft width (toString n)).toList, c.toNat < 128 := fun c member =>
    (toNat_of_isFieldChar (isFieldChar_padLeft (isFieldChar_toString n) width c member)).1
  have digits := Nat.length_toDigits_le_iff (b := 10) (n := n) (k := width) (by decide) positive
  rw [← digits, utf8_of_ascii ascii, List.length_map, toList_padLeft, toList_toString,
    List.length_append, List.length_replicate]
  omega

theorem length_dimensionsField_iff (dimensions : Option Nat) :
    (dimensionsField dimensions).length = dimFieldWidth ↔
      ∀ n, dimensions = some n → n < 10 ^ dimFieldWidth := by
  cases dimensions with
  | none =>
    have size : (dimensionsField none).length = dimFieldWidth := by decide
    exact ⟨fun _ => nofun, fun _ => size⟩
  | some n =>
    have field := length_padLeft_iff (show 0 < dimFieldWidth by decide) n
    constructor
    · rintro size _ ⟨⟩
      exact field.mp size
    · exact fun room => field.mpr (room n rfl)

/-! ### Patching -/

theorem overwrite_window {before window value after : Bytes} (size : window.length = value.length) :
    Subslice.overwrite (before ++ window ++ after) before.length value = before ++ value ++ after := by
  rw [Subslice.overwrite, ← size, ← List.length_append, List.drop_left, List.append_assoc before,
    List.take_left]

theorem patchHeaderField_eq {head marker before window value after : Bytes} {fieldName : String}
    {width : Nat} (fits : value.length = width) (size : window.length = width)
    (found : Subslice.find marker head = some before.length)
    (sentinel : head[before.length + marker.length + width]? = some comma) :
    patchHeaderField (before ++ marker ++ window ++ after) head marker fieldName value width =
      (.ok (), before ++ marker ++ value ++ after) := by
  have written := @overwrite_window (before ++ marker) window value after (size.trans fits.symm)
  rw [List.length_append] at written
  rw [patchHeaderField, if_neg (by simp [fits]), found]
  dsimp only
  rw [if_neg (by simp [sentinel]), written]

/-- A patch that succeeds wrote a value of the width of its window. -/
theorem fits_of_patchHeaderField {bytes head marker value left : Bytes} {fieldName : String}
    {width : Nat}
    (patched : patchHeaderField bytes head marker fieldName value width = (.ok (), left)) :
    value.length = width := by
  rw [patchHeaderField] at patched
  split at patched
  next => cases patched
  next fits => exact not_not.mp fits

theorem patchHeaderField_error {bytes head marker value left : Bytes} {fieldName : String} {width : Nat}
    {e : ExporterError}
    (failed : patchHeaderField bytes head marker fieldName value width = (.error e, left)) :
    left = bytes := by
  rw [patchHeaderField] at failed
  split at failed
  next => exact (congrArg Prod.snd failed).symm
  next =>
    split at failed
    next => exact (congrArg Prod.snd failed).symm
    next =>
      dsimp only at failed
      split at failed
      next => exact (congrArg Prod.snd failed).symm
      next => cases failed

/-! ### The header line -/

/-- A rendered timestamp: digits and the signs between them. -/
structure Timestamp where
  text : String
  plain : ∀ c ∈ text.toList, c.isDigit = true ∨ c ∈ "-:.+TZ".toList

/-- What a header of the present layout says besides the count. -/
structure VectorHeader where
  dimensions : Option Nat
  createdAt : Timestamp
  room : ∀ n, dimensions = some n → n < 10 ^ dimFieldWidth

/-- The header up to the window of its dimensions. -/
def headerFront : Bytes := utf8 "\x7b\"format_version\": \"1.0\", \"model_name\": null, "

/-- The header from the end of the dimensions to the window of its count. -/
def headerMiddle : Bytes := utf8 ", "

namespace VectorHeader

variable (header : VectorHeader)

def line (count : Nat) : Bytes :=
  headerLine (dimensionsField header.dimensions) (countField count) (utf8 header.createdAt.text)

def front : Bytes :=
  headerFront ++ dimensionsMarker ++ dimensionsField header.dimensions ++ headerMiddle

theorem length_front : header.front.length = 70 := by
  have dimensions := (length_dimensionsField_iff header.dimensions).mpr header.room
  have first : (headerFront ++ dimensionsMarker).length = 60 := by decide
  have middle : headerMiddle.length = 2 := by decide
  rw [front, List.length_append, List.length_append, first, dimensions, middle]
  rfl

/-- The header behind the window of its count. -/
def back : Bytes := utf8 ", \"created_at\": \"" ++ utf8 header.createdAt.text ++ utf8 "\", "

theorem line_eq (count : Nat) :
    header.line count = header.front ++ totalMarker ++ countField count ++ header.back := by
  have start : utf8 "\x7b\"format_version\": \"1.0\", \"model_name\": null, \"dimensions\": " =
      headerFront ++ dimensionsMarker := by decide
  have middle : utf8 ", \"total_documents\": " = headerMiddle ++ totalMarker := by decide
  rw [line, headerLine, start, middle, front, back]
  simp only [List.append_assoc]

theorem back_eq : ∃ rest, header.back = comma :: rest := by
  have behind : utf8 ", \"created_at\": \"" = comma :: utf8 " \"created_at\": \"" := by decide
  exact ⟨utf8 " \"created_at\": \"" ++ utf8 header.createdAt.text ++ utf8 "\", ", by
    rw [back, behind, List.cons_append, List.cons_append]⟩

theorem readHeaderBytes_line {count : Nat} (room : count < 10 ^ countFieldWidth) (after : Bytes) :
    ∃ rest, readHeaderBytes (header.line count ++ after) =
      header.front ++ totalMarker ++ countField count ++ comma :: rest := by
  obtain ⟨rest, behind⟩ := header.back_eq
  have window := (length_countField_iff count).mpr room
  have marker : totalMarker.length = 19 := by decide
  have scanned : (header.front ++ totalMarker ++ countField count ++ [comma]).length ≤
      headerScanBytes := by
    simp only [List.length_append, List.length_singleton, header.length_front, marker, window,
      countFieldWidth, headerScanBytes]
    omega
  refine ⟨(rest ++ after).take (headerScanBytes -
    (header.front ++ totalMarker ++ countField count ++ [comma]).length), ?_⟩
  have whole : header.line count ++ after =
      (header.front ++ totalMarker ++ countField count ++ [comma]) ++ (rest ++ after) := by
    simp [line_eq, behind]
  rw [readHeaderBytes, whole, List.take_append, List.take_of_length_le scanned]
  simp

theorem find_dimensionsMarker (after : Bytes) :
    Subslice.find dimensionsMarker (header.front ++ after) = some headerFront.length := by
  have found : Subslice.find dimensionsMarker (headerFront ++ dimensionsMarker) =
      some headerFront.length := by decide
  have whole : header.front ++ after = (headerFront ++ dimensionsMarker) ++
      (dimensionsField header.dimensions ++ headerMiddle ++ after) := by simp [front]
  rw [whole, Subslice.find_append _ found]

theorem find_totalMarker (after : Bytes) :
    Subslice.find totalMarker (header.front ++ (totalMarker ++ after)) = some header.front.length := by
  have apart : ∀ k < (headerFront ++ dimensionsMarker).length,
      ¬ (headerFront ++ dimensionsMarker).drop k <+: totalMarker ∧
        ¬ totalMarker <+: (headerFront ++ dimensionsMarker).drop k := by decide
  have marker : totalMarker = quotationMark :: totalMarker.tail := by decide
  have absent : quotationMark ∉ dimensionsField header.dimensions ++ headerMiddle := by
    have middle : quotationMark ∉ headerMiddle := by decide
    have window : quotationMark ∉ dimensionsField header.dimensions :=
      quotationMark_notMem_utf8 (isFieldChar_dimensions header.dimensions)
    rw [List.mem_append]
    exact fun member => member.elim window middle
  have whole : header.front ++ (totalMarker ++ after) = (headerFront ++ dimensionsMarker) ++
      ((dimensionsField header.dimensions ++ headerMiddle) ++ (totalMarker ++ after)) := by
    simp [front]
  have passed : Subslice.find totalMarker ((dimensionsField header.dimensions ++ headerMiddle) ++
      (totalMarker ++ after)) = some (dimensionsField header.dimensions ++ headerMiddle).length := by
    rw [marker, Subslice.find_skip_of_notMem absent, ← marker,
      Subslice.find_append_self (by decide), Option.map_some, Nat.zero_add]
  rw [whole, Subslice.find_skip apart, passed, Option.map_some]
  simp only [front, List.length_append, Option.some.injEq]
  omega

theorem getElem?_edge {bytes before rest : Bytes} {b : UInt8} (split : bytes = before ++ b :: rest)
    {n : Nat} (edge : n = before.length) : bytes[n]? = some b := by
  rw [split, edge, List.getElem?_append_right (Nat.le_refl _), Nat.sub_self]
  rfl

/-- The count window of a scanned header: its marker, and the comma behind it. -/
theorem countWindow {count : Nat} (room : count < 10 ^ countFieldWidth) (rest : Bytes) :
    Subslice.find totalMarker (header.front ++ totalMarker ++ countField count ++ comma :: rest) =
        some header.front.length ∧
      (header.front ++ totalMarker ++ countField count ++ comma :: rest)[
        header.front.length + totalMarker.length + countFieldWidth]? = some comma := by
  constructor
  · simpa only [List.append_assoc] using header.find_totalMarker (countField count ++ comma :: rest)
  · apply getElem?_edge rfl
    simp only [List.length_append, (length_countField_iff count).mpr room]

theorem dimensionsWindow (rest : Bytes) :
    Subslice.find dimensionsMarker (header.front ++ rest) = some headerFront.length ∧
      (header.front ++ rest)[headerFront.length + dimensionsMarker.length + dimFieldWidth]? =
        some comma := by
  have middle : headerMiddle = [comma, 0x20] := by decide
  constructor
  · exact header.find_dimensionsMarker rest
  · have split : header.front ++ rest = (headerFront ++ dimensionsMarker ++
        dimensionsField header.dimensions) ++ comma :: (0x20 :: rest) := by simp [front, middle]
    apply getElem?_edge split
    simp only [List.length_append, (length_dimensionsField_iff header.dimensions).mpr header.room]

variable {header}

theorem readAppendState_line (exporter : VectorExporter) {count : Nat} (positive : 0 < count)
    (room : count < 10 ^ countFieldWidth) (after : Bytes) :
    exporter.readAppendState (header.line count ++ after) = .ok (count, header.line count ++ after) := by
  obtain ⟨rest, head⟩ := header.readHeaderBytes_line room after
  obtain ⟨found, sentinel⟩ := header.countWindow room rest
  have size := (length_countField_iff count).mpr room
  have small : count < 2 ^ 64 := Nat.lt_trans room (by decide)
  have window : ((header.front ++ totalMarker ++ countField count ++ comma :: rest).drop
      (header.front.length + totalMarker.length)).take countFieldWidth = countField count := by
    rw [← List.length_append, List.append_assoc _ (countField count), List.drop_left, ← size,
      List.take_left]
  rw [VectorExporter.readAppendState, head, found]
  dsimp only
  rw [if_pos sentinel, window, parseCountField_countField small]
  cases count with
  | zero => exact absurd positive (Nat.lt_irrefl 0)
  | succ n => rfl

def withDimensions (header : VectorHeader) (dimensions : Nat)
    (room : dimensions < 10 ^ dimFieldWidth) : VectorHeader where
  dimensions := some dimensions
  createdAt := header.createdAt
  room := by
    rintro _ ⟨⟩
    exact room

theorem patchCount_line {count total : Nat} (room : count < 10 ^ countFieldWidth) {after left : Bytes}
    (patched : patchHeaderField (header.line count ++ after) (readHeaderBytes (header.line count ++ after))
      totalMarker "total_documents" (countField total) countFieldWidth = (.ok (), left)) :
    total < 10 ^ countFieldWidth ∧ left = header.line total ++ after := by
  obtain ⟨rest, head⟩ := header.readHeaderBytes_line room after
  obtain ⟨found, sentinel⟩ := header.countWindow room rest
  have size := (length_countField_iff count).mpr room
  have fits := fits_of_patchHeaderField patched
  refine ⟨(length_countField_iff total).mp fits, ?_⟩
  have wrote := @patchHeaderField_eq _ _ header.front _ _ (header.back ++ after)
    "total_documents" _ fits size found sentinel
  have whole : header.line count ++ after =
      header.front ++ totalMarker ++ countField count ++ (header.back ++ after) := by simp [line_eq]
  rw [head] at patched
  rw [← whole, patched, Prod.mk.injEq] at wrote
  simpa [line_eq] using wrote.2

/-- A patch that succeeds writes the count, and the dimensions when the exporter knows them. -/
theorem patchHeader_line {exporter : VectorExporter} {count total : Nat}
    (room : count < 10 ^ countFieldWidth) {after left : Bytes}
    (written : exporter.patchHeader (header.line count ++ after) total = (.ok (), left)) :
    total < 10 ^ countFieldWidth ∧ ∃ header' : VectorHeader, left = header'.line total ++ after ∧
      header'.dimensions = exporter.dimensions.or header.dimensions := by
  rw [VectorExporter.patchHeader] at written
  split at written
  next => cases written
  next counted patched =>
    obtain ⟨roomTotal, counts⟩ := patchCount_line room patched
    refine ⟨roomTotal, ?_⟩
    -- and then the dimensions, at an offset of the same scan
    split at written
    next unknown =>
      cases written
      exact ⟨header, counts, by rw [unknown, Option.none_or]⟩
    next dimensions known =>
      have fits := fits_of_patchHeaderField written
      have roomDimensions : dimensions < 10 ^ dimFieldWidth :=
        (length_dimensionsField_iff (some dimensions)).mp fits dimensions rfl
      refine ⟨header.withDimensions dimensions roomDimensions, ?_, by rw [known, Option.some_or]; rfl⟩
      obtain ⟨rest, head⟩ := header.readHeaderBytes_line room after
      obtain ⟨found, sentinel⟩ := header.dimensionsWindow
        (totalMarker ++ countField count ++ comma :: rest)
      have size := (length_dimensionsField_iff header.dimensions).mpr header.room
      have wrote := @patchHeaderField_eq _ _ headerFront _ _
        (headerMiddle ++ totalMarker ++ countField total ++ header.back ++ after) "dimensions" _
        fits size found sentinel
      have whole : counted = headerFront ++ dimensionsMarker ++ dimensionsField header.dimensions ++
          (headerMiddle ++ totalMarker ++ countField total ++ header.back ++ after) := by
        simp [counts, line_eq, front]
      have scanned : header.front ++ totalMarker ++ countField count ++ comma :: rest =
          header.front ++ (totalMarker ++ countField count ++ comma :: rest) := by simp
      rw [head, scanned, whole, wrote, Prod.mk.injEq] at written
      rw [← written.2]
      simp [line_eq, front, back, withDimensions]

/-- A patch that fails leaves the file under a header with some count. -/
theorem patchHeader_error {exporter : VectorExporter} {count total : Nat}
    (room : count < 10 ^ countFieldWidth) {after left : Bytes} {e : ExporterError}
    (failed : exporter.patchHeader (header.line count ++ after) total = (.error e, left)) :
    ∃ patched < 10 ^ countFieldWidth, left = header.line patched ++ after := by
  rw [VectorExporter.patchHeader] at failed
  split at failed
  next unpatched =>
    cases failed
    exact ⟨count, room, patchHeaderField_error unpatched⟩
  next counted patched =>
    obtain ⟨roomTotal, rfl⟩ := patchCount_line room patched
    split at failed
    next => cases failed
    next => exact ⟨total, roomTotal, patchHeaderField_error failed⟩

end VectorHeader

/-! ### The text of a file -/

/-- The documents, one a line, from the second on after a comma. -/
def bodyChars (texts : List String) : List Char :=
  JsonText.joinParts (texts.map fun text => text.toList ++ ['\n'])

theorem encodeChars_bodyChars (texts : List String) :
    Subslice.encodeChars (bodyChars texts) = vectorBody (texts.map utf8) := by
  have line : Subslice.encodeChars ['\n'] = [newline] := by decide
  have mark : String.utf8EncodeChar ',' = [comma] := by decide
  have later (rest : List String) (first : String) :
      Subslice.encodeChars (bodyChars (first :: rest)) =
        utf8 first ++ [newline] ++
          (rest.map utf8).flatMap fun document => comma :: (document ++ [newline]) := by
    induction rest generalizing first with
    | nil => simp [bodyChars, JsonText.joinParts, line, utf8_eq]
    | cons next rest ih =>
      have joined : bodyChars (first :: next :: rest) =
          (first.toList ++ ['\n']) ++ ',' :: bodyChars (next :: rest) := rfl
      rw [joined, Subslice.encodeChars_append, Subslice.encodeChars_cons, ih, mark,
        Subslice.encodeChars_append, line, utf8_eq first]
      simp
  cases texts with
  | nil => rfl
  | cons first rest => exact later rest first

namespace VectorHeader

variable (header : VectorHeader)

/-- A file of documents up to its closing, under a count. -/
def opened (count : Nat) (texts : List String) : Bytes :=
  header.line count ++ (documentsMarker ++ vectorBody (texts.map utf8))

/-! The constant pieces of a file. -/

def openingPart : List Char :=
  "\x7b\"format_version\": \"1.0\", \"model_name\": null, \"dimensions\": ".toList

def totalPart : List Char := ", \"total_documents\": ".toList

def createdPart : List Char := ", \"created_at\": \"".toList

def documentsPart : List Char := "\", \"documents\": [".toList

def closingPart : List Char := "]\x7d\n".toList

def fileChars (count : Nat) (texts : List String) : List Char :=
  openingPart ++ (Text.padLeft dimFieldWidth (header.dimensions.elim "null" toString)).toList ++
    totalPart ++ (Text.padLeft countFieldWidth (toString count)).toList ++
    createdPart ++ header.createdAt.text.toList ++ documentsPart ++ bodyChars texts ++ closingPart

/-- The characters of a file up to its closing. -/
def openedChars (count : Nat) (texts : List String) : List Char :=
  openingPart ++ (Text.padLeft dimFieldWidth (header.dimensions.elim "null" toString)).toList ++
    totalPart ++ (Text.padLeft countFieldWidth (toString count)).toList ++
    createdPart ++ header.createdAt.text.toList ++ documentsPart ++ bodyChars texts

theorem fileChars_eq (count : Nat) (texts : List String) :
    header.fileChars count texts = header.openedChars count texts ++ closingPart := rfl

theorem encodeChars_fileChars (count : Nat) (texts : List String) :
    Subslice.encodeChars (header.fileChars count texts) = header.opened count texts ++ closing := by
  have opening : Subslice.encodeChars openingPart =
      utf8 "\x7b\"format_version\": \"1.0\", \"model_name\": null, \"dimensions\": " := (utf8_eq _).symm
  have total : Subslice.encodeChars totalPart = utf8 ", \"total_documents\": " := (utf8_eq _).symm
  have created : Subslice.encodeChars createdPart = utf8 ", \"created_at\": \"" := (utf8_eq _).symm
  have documents : Subslice.encodeChars documentsPart = utf8 "\", " ++ documentsMarker := by
    decide
  have closed : Subslice.encodeChars closingPart = closing := (utf8_eq _).symm
  simp only [fileChars, Subslice.encodeChars_append, opening, total, created, documents, closed,
    encodeChars_bodyChars, ← utf8_eq]
  simp only [opened, line, headerLine, dimensionsField, countField, List.append_assoc]

theorem encodeChars_openedChars (count : Nat) (texts : List String) :
    Subslice.encodeChars (header.openedChars count texts) = header.opened count texts := by
  have closed : Subslice.encodeChars closingPart = closing := (utf8_eq _).symm
  have whole := header.encodeChars_fileChars count texts
  rw [fileChars_eq, Subslice.encodeChars_append, closed] at whole
  exact List.append_cancel_right whole

/-- The object of a file under a header with some count. -/
def objectWith (count : Nat) (values : List Json) : Json :=
  .obj [("format_version", .str "1.0"), ("model_name", .null),
    ("dimensions", header.dimensions.elim .null fun n => .int n),
    ("total_documents", .int count), ("created_at", .str header.createdAt.text),
    ("documents", .arr values)]

/-- The object of a file that holds documents with these values. -/
def object (values : List Json) : Json :=
  .obj [("format_version", .str "1.0"), ("model_name", .null),
    ("dimensions", header.dimensions.elim .null fun n => .int n),
    ("total_documents", .int values.length), ("created_at", .str header.createdAt.text),
    ("documents", .arr values)]

variable {header} {double : List Char → UInt64}

open JsonText in
theorem spells_bodyChars {values : List Json} {texts : List String}
    (each : List.Forall₂ (fun v text => Spells double (.value v) text.toList) values texts) :
    Spells double (.items values) (bodyChars texts) := by
  apply Spells.joined
  induction each with
  | nil => exact .nil
  | cons first rest ih => exact .cons (first.before (by decide)) ih

open JsonText in
theorem spells_dimensions (dimensions : Option Nat) :
    Spells double (.value (dimensions.elim .null fun n => .int n))
      (' ' :: (Text.padLeft dimFieldWidth (dimensions.elim "null" toString)).toList) := by
  rw [toList_padLeft, ← List.cons_append]
  apply Spells.behind
  · simp [isSpace]
  · cases dimensions with
    | none => exact .null
    | some n => exact .int n

open JsonText in
theorem spells_count (n : Nat) :
    Spells double (.value (.int n)) (' ' :: (Text.padLeft countFieldWidth (toString n)).toList) := by
  rw [toList_padLeft, ← List.cons_append]
  apply Spells.behind
  · simp [isSpace]
  · exact .int n

open JsonText in
theorem spells_createdAt (createdAt : Timestamp) :
    Spells double (.value (.str createdAt.text)) ([' '] ++ '"' :: (createdAt.text.toList ++ ['"'])) := by
  apply Spells.behind (by decide)
  apply Spells.str
  apply spellsString_plain
  rw [List.all_eq_true]
  intro c member
  rcases createdAt.plain c member with digit | sign
  · have noQuote : c ≠ '"' := by
      rintro rfl
      exact absurd digit (by decide)
    have noEscape : c ≠ '\\' := by
      rintro rfl
      exact absurd digit (by decide)
    simp [isPlain, printable_of_isDigit digit, noQuote, noEscape]
  · have each : "-:.+TZ".toList.all isPlain = true := by decide
    exact List.all_eq_true.mp each c sign

open JsonText in
theorem spells_version : Spells double (.value (.str "1.0")) " \"1.0\"".toList := by
  have written : " \"1.0\"".toList = [' '] ++ '"' :: ("1.0".toList ++ ['"']) := by decide
  rw [written]
  exact .behind (by decide) (.str (spellsString_plain (by decide)))

open JsonText in
theorem spells_modelName : Spells double (.value .null) " null".toList := by
  have written : " null".toList = [' '] ++ "null".toList := by decide
  rw [written]
  exact .behind (by decide) .null

open JsonText in
/-- The file spells its object up to the line break, with the documents in order. -/
theorem spells_openedChars (count : Nat) {values : List Json} {texts : List String}
    (each : List.Forall₂ (fun v text => Spells double (.value v) text.toList) values texts) :
    Spells double (.value (header.objectWith count values))
      (header.openedChars count texts ++ [']', '\x7d']) := by
  have fields : Spells double (.value (header.objectWith count values)) ('\x7b' :: ((
      keyText [] "format_version" ++ " \"1.0\"".toList ++ ',' ::
      (keyText [' '] "model_name" ++ " null".toList ++ ',' ::
      (keyText [' '] "dimensions" ++
        (' ' :: (Text.padLeft dimFieldWidth (header.dimensions.elim "null" toString)).toList) ++ ',' ::
      (keyText [' '] "total_documents" ++
        (' ' :: (Text.padLeft countFieldWidth (toString count)).toList) ++ ',' ::
      (keyText [' '] "created_at" ++ ([' '] ++ '"' :: (header.createdAt.text.toList ++ ['"'])) ++ ',' ::
      (keyText [' '] "documents" ++ ([' '] ++ '[' :: (bodyChars texts ++ [']'])))))))) ++ ['\x7d'])) := by
    apply Spells.obj
    apply Spells.field (by simp) (spellsKey_plain (by decide) (by decide))
    · exact spells_version
    apply Spells.field (by simp) (spellsKey_plain (by decide) (by decide))
    · exact spells_modelName
    apply Spells.field (by simp) (spellsKey_plain (by decide) (by decide)) (spells_dimensions _)
    apply Spells.field (by simp) (spellsKey_plain (by decide) (by decide)) (spells_count _)
    apply Spells.field (by simp) (spellsKey_plain (by decide) (by decide)) (spells_createdAt _)
    apply Spells.lastField (spellsKey_plain (by decide) (by decide))
    apply Spells.behind (by decide)
    exact .arr (spells_bodyChars each)
  have opening : openingPart = '\x7b' :: (keyText [] "format_version" ++ " \"1.0\"".toList ++ ',' ::
      (keyText [' '] "model_name" ++ " null".toList ++ ',' :: (keyText [' '] "dimensions" ++ [' ']))) := by
    decide
  have total : totalPart = ',' :: (keyText [' '] "total_documents" ++ [' ']) := by decide
  have created : createdPart = ',' :: (keyText [' '] "created_at" ++ [' ', '"']) := by decide
  have documents : documentsPart = '"' :: ',' :: (keyText [' '] "documents" ++ [' ', '[']) := by
    decide
  rw [openedChars, opening, total, created, documents]
  simpa only [List.append_assoc, List.cons_append, List.nil_append] using fields

open JsonText in
/-- The file spells its object, with the documents in order and their number. -/
theorem spells_fileChars {values : List Json} {texts : List String}
    (each : List.Forall₂ (fun v text => Spells double (.value v) text.toList) values texts) :
    Spells double (.value (header.object values)) (header.fileChars values.length texts) := by
  -- the line break behind the closing is white space
  have blank : ['\n'].all isSpace = true := by decide
  have ended := (header.spells_openedChars values.length each).before blank
  have closed : closingPart = [']', '\x7d'] ++ ['\n'] := by decide
  rw [fileChars_eq, closed, ← List.append_assoc]
  exact ended

end VectorHeader

end Webfang.Export
