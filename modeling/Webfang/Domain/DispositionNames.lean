import Webfang.Domain.Filename
import Webfang.Library.Utf8

/-!
# Names in a Content-Disposition value

Which names `parse_content_disposition` reads back: the quoted form is split at semicolons before the
quotes are looked at, and of single quotes as well, and the extended form is decoded byte by byte,
each byte a character of its own.
-/
namespace Webfang.Domain.Filename

open Library

/-! ### Percent-encodings -/

/-- A digit in either case. -/
def HexDigit (value : Nat) (c : Char) : Prop := c = Nat.digitChar value ∨ c = (Nat.digitChar value).toUpper

/-- The characters of RFC 5987 that stand for themselves. -/
def AttrChar (c : Char) : Prop := c.isAlphanum = true ∨ c ∈ "!#$&+-.^_`|~".toList

instance (c : Char) : Decidable (AttrChar c) := inferInstanceAs (Decidable (_ ∨ _))

/-- A text that stands for these bytes: each is escaped, or is a character that need not be. -/
inductive Escaped : List UInt8 → List Char → Prop
  | nil : Escaped [] []
  | literal {c : Char} {bytes : List UInt8} {text : List Char} (plain : AttrChar c)
      (rest : Escaped bytes text) : Escaped (UInt8.ofNat c.toNat :: bytes) (c :: text)
  | escape {byte : UInt8} {high low : Char} {bytes : List UInt8} {text : List Char}
      (first : HexDigit (byte.toNat / 16) high) (second : HexDigit (byte.toNat % 16) low)
      (rest : Escaped bytes text) : Escaped (byte :: bytes) ('%' :: high :: low :: text)

def escapeAll (bytes : List UInt8) : List Char :=
  bytes.flatMap fun byte => ['%', Nat.digitChar (byte.toNat / 16), Nat.digitChar (byte.toNat % 16)]

theorem escapeAll_escaped (bytes : List UInt8) : Escaped bytes (escapeAll bytes) := by
  induction bytes with
  | nil => exact .nil
  | cons byte rest ih => exact .escape (.inl rfl) (.inl rfl) ih

theorem hexDigit_value {value : Nat} {c : Char} (small : value < 16) (digit : HexDigit value c) :
    hexValue c = some value ∧ c ≠ '+' ∧ c ≠ ';' ∧ Text.isWhitespace c = false := by
  have all : ((List.range 16).all fun value =>
      [Nat.digitChar value, (Nat.digitChar value).toUpper].all fun c =>
        hexValue c = some value ∧ c ≠ '+' ∧ c ≠ ';' ∧ Text.isWhitespace c = false) = true := by decide
  have both := List.all_eq_true.mp all value (List.mem_range.mpr small)
  refine of_decide_eq_true (List.all_eq_true.mp both c ?_)
  simpa [HexDigit] using digit

theorem isAlphanum_ascii {c : Char} (alphanum : c.isAlphanum = true) : c.toNat < 128 := by
  unfold Char.isAlphanum Char.isAlpha Char.isUpper Char.isLower Char.isDigit at alphanum
  simp only [Bool.or_eq_true, Bool.and_eq_true, decide_eq_true_eq, ge_iff_le, UInt32.le_iff_toNat_le] at alphanum
  unfold Char.toNat
  have last : 'Z'.val.toNat = 90 ∧ 'z'.val.toNat = 122 ∧ '9'.val.toNat = 57 := by decide
  omega

theorem attrChar_plain {c : Char} (attr : AttrChar c) :
    c.toNat < 128 ∧ c ≠ '%' ∧ c ≠ ';' ∧ Text.isWhitespace c = false := by
  have ascii : c.toNat < 128 := by
    rcases attr with alphanum | listed
    · exact isAlphanum_ascii alphanum
    · have all : ("!#$&+-.^_`|~".toList.all fun c => c.toNat < 128) = true := by decide
      exact forall_of_all all c listed
  have all : ((List.range 128).map Char.ofNat |>.all fun c =>
      AttrChar c → c ≠ '%' ∧ c ≠ ';' ∧ Text.isWhitespace c = false) = true := by decide
  have member : c ∈ (List.range 128).map Char.ofNat :=
    List.mem_map.mpr ⟨c.toNat, List.mem_range.mpr ascii, Char.ofNat_toNat c⟩
  exact ⟨ascii, forall_of_all all c member attr⟩

/-- The code points of the bytes, one by one. -/
def latin1 (bytes : List UInt8) : List Char := bytes.map fun byte => Char.ofNat byte.toNat

theorem percentDecode_cons {c : Char} (other : c ≠ '%') (rest : List Char) :
    percentDecode (c :: rest) = c :: percentDecode rest := by
  rw [percentDecode.eq_5]
  · exact fun same _ => other same
  · exact fun _ same _ => other same
  · exact fun _ _ _ same _ => other same

theorem decodeEscape_digits {byte : UInt8} {high low : Char} (first : HexDigit (byte.toNat / 16) high)
    (second : HexDigit (byte.toNat % 16) low) : decodeEscape [high, low] = [Char.ofNat byte.toNat] := by
  have below := byte.toNat_lt
  obtain ⟨high_value, plus, -⟩ := hexDigit_value (by omega) first
  obtain ⟨low_value, -⟩ := hexDigit_value (by omega) second
  have read : u8FromHex [high, low] = some byte.toNat := by
    unfold u8FromHex
    split
    next rest signed => exact absurd (List.cons.inj signed).1 plus
    next =>
      simp only [List.mapM_cons, List.mapM_nil, high_value, low_value]
      simp
      omega
  rw [decodeEscape, read]

theorem percentDecode_escaped {bytes : List UInt8} {text : List Char} (escaped : Escaped bytes text) :
    percentDecode text = latin1 bytes := by
  induction escaped with
  | nil => rfl
  | @literal c bytes text plain rest ih =>
    obtain ⟨ascii, percent, -⟩ := attrChar_plain plain
    have same : Char.ofNat (UInt8.ofNat c.toNat).toNat = c := by
      rw [UInt8.toNat_ofNat', Nat.mod_eq_of_lt (by omega)]
      exact Char.ofNat_toNat c
    rw [percentDecode_cons percent, ih, latin1, latin1, List.map_cons, same]
  | escape first second rest ih =>
    rw [percentDecode, decodeEscape_digits first second, ih]
    rfl

theorem length_le_encode (chars : List Char) :
    chars.length ≤ (chars.flatMap String.utf8EncodeChar).length := by
  induction chars with
  | nil => exact Nat.le_refl 0
  | cons c rest ih =>
    have one := c.utf8Size_pos
    rw [List.flatMap_cons, List.length_append, String.length_utf8EncodeChar, List.length_cons]
    omega

theorem utf8Size_eq_one_iff (c : Char) : c.utf8Size = 1 ↔ c.toNat < 128 := by
  rw [Char.utf8Size_eq_one_iff, UInt32.le_iff_toNat_le]
  exact Nat.lt_succ_iff.symm

theorem latin1_encodeChar {c : Char} (ascii : c.toNat < 128) : latin1 (String.utf8EncodeChar c) = [c] := by
  rw [String.utf8EncodeChar_eq_singleton ((utf8Size_eq_one_iff c).mpr ascii), latin1, List.map_singleton,
    UInt32.toNat_toUInt8, Nat.mod_eq_of_lt (a := c.val.toNat) (Nat.lt_trans ascii (by decide))]
  exact congrArg (fun d => [d]) (Char.ofNat_toNat c)

theorem latin1_encode_iff (chars : List Char) :
    latin1 (chars.flatMap String.utf8EncodeChar) = chars ↔ ∀ c ∈ chars, c.toNat < 128 := by
  induction chars with
  | nil => simp [latin1]
  | cons c rest ih =>
    rw [List.flatMap_cons, latin1, List.map_append, ← latin1, ← latin1, List.forall_mem_cons, ← ih]
    constructor
    · intro same
      have lengths := congrArg List.length same
      rw [List.length_append, List.length_cons, latin1, latin1, List.length_map, List.length_map,
        String.length_utf8EncodeChar] at lengths
      have more := length_le_encode rest
      have one := c.utf8Size_pos
      have ascii := (utf8Size_eq_one_iff c).mp (by omega)
      rw [latin1_encodeChar ascii] at same
      exact ⟨ascii, (List.cons.inj same).2⟩
    · rintro ⟨ascii, same⟩
      rw [latin1_encodeChar ascii, same]
      rfl

/-- Decoding undoes the encoding of ASCII only. -/
theorem percentDecode_escaped_iff {name : String} {text : List Char}
    (escaped : Escaped (Utf8.encode name) text) :
    percentDecode text = name.toList ↔ ∀ c ∈ name.toList, c.toNat < 128 := by
  rw [percentDecode_escaped escaped, Utf8.encode_eq, latin1_encode_iff]

/-! ### The parts of a value -/

def dispositionParts (value : String) : List String :=
  (value.toList.splitOn ';').map fun part => Text.trim (String.ofList part)

def extendedName (part : String) : Option String := do
  let rest ← Text.stripPrefix part "filename*="
  let name ← Text.stripPrefix rest "UTF-8''"
  let decoded := percentDecode name.toList
  if decoded = [] then none else some (String.ofList decoded)

def isQuote (c : Char) : Bool := c = '"' || c = '\''

def standardName (part : String) : Option String := do
  let rest ← Text.stripPrefix part "filename="
  let name := trimEnds isQuote rest.toList
  if name = [] then none else some (String.ofList name)

theorem parseContentDisposition_eq (value : String) : parseContentDisposition value =
    ((dispositionParts value).findSome? extendedName).or
      ((dispositionParts value).findSome? standardName) := rfl

/-- The type of the disposition in front of a parameter, or nothing. -/
def frontings : List String := ["", "attachment; "]

def extendedForm (front : String) (text : List Char) : String :=
  front ++ "filename*=UTF-8''" ++ String.ofList text

def quotedForm (name : String) : String := "attachment; filename=\"" ++ name ++ "\""

theorem dispositionParts_plain {value : String} (plain : ';' ∉ value.toList) :
    dispositionParts value = [Text.trim value] := by
  rw [dispositionParts, List.splitOn_eq_singleton plain, List.map_singleton, String.ofList_toList]

theorem mem_dispositionParts {value part : String} (member : part ∈ dispositionParts value) :
    ';' ∉ part.toList ∧ part.toList.length ≤ value.toList.length := by
  obtain ⟨piece, split, rfl⟩ := List.mem_map.mp member
  rw [Text.trim, String.toList_ofList, String.toList_ofList]
  constructor
  · exact fun inside => Text.not_mem_of_mem_splitOn split (mem_of_mem_trimEnds inside)
  · refine le_trans ?_ (Text.sublist_of_mem_splitOnP split).length_le
    exact (List.rdropWhile_prefix _ _).length_le.trans (List.dropWhile_suffix _).length_le

theorem dispositionParts_cons {first rest : String} (plain : ';' ∉ first.toList) :
    dispositionParts (first ++ ";" ++ rest) = Text.trim first :: dispositionParts rest := by
  have whole : (first ++ ";" ++ rest).toList = first.toList ++ ';' :: rest.toList := by simp
  rw [dispositionParts, whole, List.splitOn_append_cons_self_of_not_mem plain, List.map_cons,
    String.ofList_toList, dispositionParts]

/-- Blanks in front go, and nothing of what is visible at both ends. -/
theorem trim_visible (blanks : List Char) {rest : List Char} {first : Char}
    (blank : ∀ c ∈ blanks, Text.isWhitespace c = true) (opening : Text.isWhitespace first = false)
    (closing : ∀ last, (first :: rest).getLast? = some last → Text.isWhitespace last = false) :
    Text.trim (String.ofList (blanks ++ first :: rest)) = String.ofList (first :: rest) := by
  have kept : trimEnds Text.isWhitespace (first :: rest) = first :: rest := by
    rw [trimEnds, List.dropWhile_cons_of_neg (by simp [opening]), List.rdropWhile_eq_self_iff]
    intro more
    rw [closing _ (List.getLast?_eq_some_getLast more)]
    decide
  have trimmed : trimEnds Text.isWhitespace (blanks ++ first :: rest ++ []) = _ :=
    trimEnds_append blank (List.forall_mem_nil _) _
  rw [List.append_nil, kept] at trimmed
  rw [Text.trim, String.toList_ofList]
  exact congrArg String.ofList trimmed

/-- A parameter behind the type of the disposition, or alone. -/
theorem parse_param {front : String} {rest : List Char} (listed : front ∈ frontings)
    (unsplit : ';' ∉ 'f' :: rest)
    (closing : ∀ last, ('f' :: rest).getLast? = some last → Text.isWhitespace last = false) :
    parseContentDisposition (front ++ String.ofList ('f' :: rest)) =
      (extendedName (String.ofList ('f' :: rest))).or (standardName (String.ofList ('f' :: rest))) := by
  have attachment : extendedName "attachment" = none ∧ standardName "attachment" = none := by decide
  have skip {read : String → Option String} {part : String} {more : List String} (other : read part = none) :
      (part :: more).findSome? read = more.findSome? read := by rw [List.findSome?_cons, other]
  rw [parseContentDisposition_eq]
  simp only [frontings, List.mem_cons, List.not_mem_nil, or_false] at listed
  rcases listed with rfl | rfl
  · have alone := trim_visible [] (List.forall_mem_nil _) (by decide) closing
    rw [List.nil_append] at alone
    rw [String.empty_append, dispositionParts_plain (by rwa [String.toList_ofList]), alone,
      List.findSome?_singleton, List.findSome?_singleton]
  · have behind := trim_visible [' '] (forall_of_all (by decide)) (by decide) closing
    have whole : "attachment; " ++ String.ofList ('f' :: rest) =
        "attachment" ++ ";" ++ String.ofList ([' '] ++ 'f' :: rest) := by
      rw [← String.toList_inj]
      simp
    have plain : ';' ∉ (String.ofList ([' '] ++ 'f' :: rest)).toList := by
      rw [String.toList_ofList]
      simpa using unsplit
    have trimmed : Text.trim "attachment" = "attachment" := by decide
    rw [whole, dispositionParts_cons (by decide), dispositionParts_plain plain, behind, trimmed,
      skip attachment.1, skip attachment.2, List.findSome?_singleton, List.findSome?_singleton]

/-! ### The extended form -/

theorem extendedName_param {text : List Char} (decoded : percentDecode text ≠ []) :
    extendedName ("filename*=UTF-8''" ++ String.ofList text) = some (String.ofList (percentDecode text)) := by
  have first : Text.stripPrefix ("filename*=UTF-8''" ++ String.ofList text) "filename*=" =
      some ("UTF-8''" ++ String.ofList text) := by
    rw [Text.stripPrefix_eq_some_iff, ← String.append_assoc]
    rfl
  have second : Text.stripPrefix ("UTF-8''" ++ String.ofList text) "UTF-8''" = some (String.ofList text) :=
    Text.stripPrefix_eq_some_iff.mpr rfl
  rw [extendedName, first]
  simp [second, decoded]

theorem extended_read {text : List Char} {front : String} (listed : front ∈ frontings) (some_text : text ≠ [])
    (unsplit : ∀ c ∈ text, c ≠ ';' ∧ Text.isWhitespace c = false) (decoded : percentDecode text ≠ []) :
    parseContentDisposition (extendedForm front text) = some (String.ofList (percentDecode text)) := by
  have param : "filename*=UTF-8''" ++ String.ofList text =
      String.ofList ('f' :: ("ilename*=UTF-8''".toList ++ text)) := by
    rw [← String.toList_inj]
    simp
  have plain : ';' ∉ 'f' :: ("ilename*=UTF-8''".toList ++ text) := by
    rw [← List.cons_append, List.mem_append]
    rintro (before | inside)
    · exact absurd before (by decide)
    · exact (unsplit _ inside).1 rfl
  have closing : ∀ last, ('f' :: ("ilename*=UTF-8''".toList ++ text)).getLast? = some last →
      Text.isWhitespace last = false := by
    intro last ends
    rw [← List.cons_append, List.getLast?_append_of_ne_nil _ some_text] at ends
    exact (unsplit last (List.mem_of_getLast? ends)).2
  have read := extendedName_param decoded
  rw [param] at read
  rw [extendedForm, String.append_assoc, param, parse_param listed plain closing, read, Option.some_or]

theorem escaped_plain {bytes : List UInt8} {text : List Char} (escaped : Escaped bytes text) :
    ∀ c ∈ text, c ≠ ';' ∧ Text.isWhitespace c = false := by
  induction escaped with
  | nil => nofun
  | literal plain rest ih => exact List.forall_mem_cons.mpr ⟨(attrChar_plain plain).2.2, ih⟩
  | @escape byte high low bytes text first second rest ih =>
    have below := byte.toNat_lt
    have high_plain := hexDigit_value (by omega) first
    have low_plain := hexDigit_value (by omega) second
    simp only [List.forall_mem_cons]
    exact ⟨by decide, high_plain.2.2, low_plain.2.2, ih⟩

theorem encode_eq_nil_iff {name : String} : Utf8.encode name = [] ↔ name = "" := by
  have empty : Utf8.encode "" = [] := by
    rw [Utf8.encode_eq]
    rfl
  constructor
  · exact fun none => Utf8.encode_inj (none.trans empty.symm)
  · rintro rfl
    exact empty

/-- Every percent-encoding of the name is read back as the name exactly if it is ASCII. -/
theorem extended_iff {name : String} (nonempty : name ≠ "") :
    (∀ front ∈ frontings, ∀ text, Escaped (Utf8.encode name) text →
      parseContentDisposition (extendedForm front text) = some name) ↔ ∀ c ∈ name.toList, c.toNat < 128 := by
  have read {front : String} {text : List Char} (listed : front ∈ frontings)
      (escaped : Escaped (Utf8.encode name) text) :
      parseContentDisposition (extendedForm front text) = some (String.ofList (percentDecode text)) := by
    have bytes : Utf8.encode name ≠ [] := mt encode_eq_nil_iff.mp nonempty
    have decoded : percentDecode text ≠ [] := by
      rw [percentDecode_escaped escaped, latin1, Ne, List.map_eq_nil_iff]
      exact bytes
    have some_text : text ≠ [] := by
      rintro rfl
      exact decoded rfl
    exact extended_read listed some_text (escaped_plain escaped) decoded
  have back {text : List Char} (escaped : Escaped (Utf8.encode name) text) :
      some (String.ofList (percentDecode text)) = some name ↔ ∀ c ∈ name.toList, c.toNat < 128 := by
    rw [Option.some.injEq, ← String.toList_inj, String.toList_ofList, percentDecode_escaped_iff escaped]
  constructor
  · intro all
    have escaped := escapeAll_escaped (Utf8.encode name)
    have listed : "" ∈ frontings := by decide
    exact (back escaped).mp ((read listed escaped).symm.trans (all "" listed _ escaped))
  · exact fun ascii front listed text escaped => (read listed escaped).trans ((back escaped).mpr ascii)

/-! ### The quoted form -/

theorem quotedForm_toList (name : String) :
    (quotedForm name).toList = "attachment; filename=\"".toList ++ (name.toList ++ ['"']) := by
  unfold quotedForm
  rw [String.toList_append, String.toList_append, List.append_assoc]
  rfl

/-- Nothing is lost at the quotes. -/
def QuotesKept (name : String) : Prop :=
  ';' ∉ name.toList ∧ name.toList.head? ≠ some '\'' ∧ name.toList.getLast? ≠ some '\''

theorem isQuote_eq_false_iff {c : Char} (plain : c ≠ '"') : isQuote c = false ↔ c ≠ '\'' := by
  simp [isQuote, plain]

theorem extendedName_plain (rest : List Char) :
    extendedName (String.ofList ("filename=\"".toList ++ rest)) = none := by
  have other : Text.stripPrefix (String.ofList ("filename=\"".toList ++ rest)) "filename*=" = none := by
    rw [Option.eq_none_iff_forall_ne_some]
    intro behind stripped
    have whole := congrArg String.toList (Text.stripPrefix_eq_some_iff.mp stripped)
    simp at whole
  rw [extendedName, other]
  rfl

theorem standardName_param (value : List Char) : standardName (String.ofList ("filename=".toList ++ value)) =
    if trimEnds isQuote value = [] then none else some (String.ofList (trimEnds isQuote value)) := by
  have stripped : Text.stripPrefix (String.ofList ("filename=".toList ++ value)) "filename=" =
      some (String.ofList value) := by
    rw [Text.stripPrefix_eq_some_iff, String.ofList_append, String.ofList_toList]
  rw [standardName, stripped]
  simp

/-- Where there is no semicolon, the quotes go, and single quotes next to them as well. -/
theorem quoted_read {name : String} (unsplit : ';' ∉ name.toList) :
    parseContentDisposition (quotedForm name) =
      if trimEnds isQuote name.toList = [] then none
      else some (String.ofList (trimEnds isQuote name.toList)) := by
  have param : quotedForm name =
      "attachment; " ++ String.ofList ('f' :: ("ilename=\"".toList ++ (name.toList ++ ['"']))) := by
    have front : "attachment; filename=\"".toList = "attachment; ".toList ++ 'f' :: "ilename=\"".toList := by
      decide
    rw [← String.toList_inj, quotedForm_toList, front, String.toList_append, List.append_assoc]
    exact congrArg ("attachment; ".toList ++ ·) String.toList_ofList.symm
  have listed : "attachment; " ∈ frontings := by decide
  have plain : ';' ∉ 'f' :: ("ilename=\"".toList ++ (name.toList ++ ['"'])) := by
    simpa using unsplit
  have closing : ∀ last, ('f' :: ("ilename=\"".toList ++ (name.toList ++ ['"']))).getLast? = some last →
      Text.isWhitespace last = false := by
    have ends (first c : Char) (xs ys : List Char) : (first :: (xs ++ (ys ++ [c]))).getLast? = some c := by
      rw [← List.append_assoc, ← List.cons_append, List.getLast?_concat]
    intro last final
    cases (ends _ _ _ _).symm.trans final
    decide
  have unquoted : trimEnds isQuote (['"'] ++ name.toList ++ ['"']) = trimEnds isQuote name.toList :=
    trimEnds_append (forall_of_all (by decide)) (forall_of_all (by decide)) _
  rw [param, parse_param listed plain closing]
  have extended := extendedName_plain (name.toList ++ ['"'])
  have standard := standardName_param (['"'] ++ name.toList ++ ['"'])
  rw [unquoted] at standard
  exact (congrArg₂ Option.or extended standard).trans (Option.none_or ..)

theorem standardName_part {part name : String} (read : standardName part = some name) :
    ∀ c ∈ name.toList, c ∈ part.toList := by
  unfold standardName at read
  cases stripped : Text.stripPrefix part "filename=" with
  | none =>
    rw [stripped] at read
    cases read
  | some rest =>
    rw [stripped] at read
    simp only [Option.bind_eq_bind, Option.bind_some] at read
    split at read
    next => cases read
    next =>
      cases read
      intro c inside
      rw [String.toList_ofList] at inside
      rw [Text.stripPrefix_eq_some_iff.mp stripped, String.toList_append]
      exact List.mem_append_right _ (mem_of_mem_trimEnds inside)

theorem length_decodeEscape_le (hex : List Char) : (decodeEscape hex).length ≤ hex.length + 1 := by
  unfold decodeEscape
  split <;> simp

theorem length_percentDecode_le (text : List Char) : (percentDecode text).length ≤ text.length := by
  induction text using percentDecode.induct with
  | case1 => exact Nat.le_refl 0
  | case2 => exact length_decodeEscape_le []
  | case3 a => exact length_decodeEscape_le [a]
  | case4 a b rest ih =>
    have escape := length_decodeEscape_le [a, b]
    simp only [percentDecode, List.length_append, List.length_cons, List.length_nil] at *
    omega
  | case5 c rest other other' other'' ih =>
    rw [percentDecode.eq_5 _ _ other other' other'', List.length_cons, List.length_cons]
    exact Nat.succ_le_succ ih

theorem extendedName_part {part name : String} (read : extendedName part = some name) :
    (∃ rest, part = "filename*=" ++ rest) ∧ name.toList.length + 17 ≤ part.toList.length := by
  unfold extendedName at read
  cases stripped : Text.stripPrefix part "filename*=" with
  | none =>
    rw [stripped] at read
    cases read
  | some rest =>
    cases inner : Text.stripPrefix rest "UTF-8''" with
    | none =>
      rw [stripped] at read
      simp [inner] at read
    | some text =>
      rw [stripped] at read
      simp only [Option.bind_eq_bind, Option.bind_some, inner] at read
      split at read
      next => cases read
      next =>
        cases read
        have whole := Text.stripPrefix_eq_some_iff.mp stripped
        refine ⟨⟨rest, whole⟩, ?_⟩
        have short := length_percentDecode_le text.toList
        rw [whole, Text.stripPrefix_eq_some_iff.mp inner, String.toList_ofList]
        simp
        omega

/-- The part with the opening quote is no extended parameter, whatever is trimmed behind it. -/
theorem extendedName_opening (rest : List Char) :
    extendedName (Text.trim (String.ofList (" filename=\"".toList ++ rest))) = none := by
  rw [Option.eq_none_iff_forall_ne_some]
  intro name read
  obtain ⟨⟨behind, whole⟩, -⟩ := extendedName_part read
  have blank : " filename=\"".toList ++ rest = ' ' :: 'f' :: ("ilename=\"".toList ++ rest) := rfl
  have part : (Text.trim (String.ofList (" filename=\"".toList ++ rest))).toList <+:
      "filename=\"".toList ++ rest := by
    rw [Text.trim, String.toList_ofList, String.toList_ofList, blank,
      List.dropWhile_cons_of_pos (by decide), List.dropWhile_cons_of_neg (by decide)]
    exact List.rdropWhile_prefix _ _
  rw [whole, String.toList_append] at part
  have starts := (List.prefix_append _ _).trans part
  have other : ¬ "filename*=".toList <+: "filename=\"".toList := by decide
  exact other (List.prefix_of_prefix_length_le starts (List.prefix_append _ _) (by decide))

/-- Where there is one, no part gives the whole name back. -/
theorem quoted_split {name : String} (split : ';' ∈ name.toList) :
    parseContentDisposition (quotedForm name) ≠ some name := by
  obtain ⟨before, after, whole, first⟩ := List.eq_append_cons_of_mem split
  have parts : dispositionParts (quotedForm name) = "attachment" ::
      Text.trim (String.ofList (" filename=\"".toList ++ before)) ::
        dispositionParts (String.ofList (after ++ ['"'])) := by
    have pieces : quotedForm name = "attachment" ++ ";" ++
        (String.ofList (" filename=\"".toList ++ before) ++ ";" ++ String.ofList (after ++ ['"'])) := by
      have opening : "attachment; filename=\"".toList =
          "attachment".toList ++ (";".toList ++ " filename=\"".toList) := by decide
      have semicolon : ";".toList = [';'] := by decide
      rw [← String.toList_inj, quotedForm_toList, whole, opening]
      simp only [String.toList_append, String.toList_ofList, List.append_assoc, List.cons_append, semicolon,
        List.nil_append]
    have plain : ';' ∉ (String.ofList (" filename=\"".toList ++ before)).toList := by
      rw [String.toList_ofList, List.mem_append]
      rintro (opening | inside)
      · exact absurd opening (by decide)
      · exact first inside
    have trimmed : Text.trim "attachment" = "attachment" := by decide
    rw [pieces, dispositionParts_cons (by decide), dispositionParts_cons plain, trimmed]
  intro returned
  rw [parseContentDisposition_eq, Option.or_eq_some_iff] at returned
  rcases returned with extended | ⟨-, standard⟩
  · -- the text of a later part is shorter than the name
    obtain ⟨part, member, read⟩ := List.exists_of_findSome?_eq_some extended
    rw [parts] at member
    have alone : extendedName "attachment" = none := by decide
    rcases List.mem_cons.mp member with rfl | later
    · cases alone.symm.trans read
    rcases List.mem_cons.mp later with rfl | behind
    · cases (extendedName_opening before).symm.trans read
    have long := (extendedName_part read).2
    have short := (mem_dispositionParts behind).2
    rw [String.toList_ofList, List.length_append, List.length_singleton] at short
    rw [whole, List.length_append, List.length_cons] at long
    omega
  · -- no part has a semicolon
    obtain ⟨part, member, read⟩ := List.exists_of_findSome?_eq_some standard
    exact (mem_dispositionParts member).1 (standardName_part read _ split)

theorem quoted_iff {name : String} (nonempty : name ≠ "") (plain : '"' ∉ name.toList) :
    parseContentDisposition (quotedForm name) = some name ↔ QuotesKept name := by
  by_cases split : ';' ∈ name.toList
  · exact iff_of_false (quoted_split split) fun kept => kept.1 split
  have head {c : Char} (first : name.toList.head? = some c) : isQuote c = false ↔ c ≠ '\'' :=
    isQuote_eq_false_iff fun quote => plain (quote ▸ List.mem_of_head? first)
  have last {c : Char} (final : name.toList.getLast? = some c) : isQuote c = false ↔ c ≠ '\'' :=
    isQuote_eq_false_iff fun quote => plain (quote ▸ List.mem_of_getLast? final)
  have kept : trimEnds isQuote name.toList = name.toList ↔
      name.toList.head? ≠ some '\'' ∧ name.toList.getLast? ≠ some '\'' := by
    rw [trimEnds_eq_self_iff]
    constructor
    · rintro ⟨opening, closing⟩
      refine ⟨fun first => ?_, fun final => ?_⟩
      · exact (head first).mp (opening _ first) rfl
      · exact (last final).mp (closing _ final) rfl
    · rintro ⟨opening, closing⟩
      refine ⟨fun c first => (head first).mpr ?_, fun c final => (last final).mpr ?_⟩
      · rintro rfl
        exact opening first
      · rintro rfl
        exact closing final
  rw [quoted_read split, QuotesKept, ← kept, and_iff_right split]
  have some_name : name.toList ≠ [] := mt String.toList_eq_nil_iff.mp nonempty
  by_cases same : trimEnds isQuote name.toList = name.toList
  · rw [same, if_neg some_name, String.ofList_toList]
    exact iff_of_true rfl rfl
  · refine iff_of_false ?_ same
    split
    next => exact nofun
    next =>
      intro returned
      have whole := congrArg String.toList (Option.some.inj returned)
      exact same (String.toList_ofList.symm.trans whole)

/-! ### Both forms -/

/-- Both forms give the name back, however its bytes are escaped. -/
structure ParsedBack (name : String) : Prop where
  quoted : parseContentDisposition (quotedForm name) = some name
  extended : ∀ front ∈ frontings, ∀ text, Escaped (Utf8.encode name) text →
    parseContentDisposition (extendedForm front text) = some name

/-- Only ASCII names without semicolons, and without single quotes at their ends, are read back. -/
theorem parsedBack_iff {name : String} (nonempty : name ≠ "")
    (plain : ∀ c ∈ name.toList, Text.isControl c = false ∧ c ≠ '"' ∧ c ≠ '\\') :
    ParsedBack name ↔ QuotesKept name ∧ ∀ c ∈ name.toList, c.toNat < 128 := by
  have unquoted : '"' ∉ name.toList := fun member => (plain _ member).2.1 rfl
  rw [← quoted_iff nonempty unquoted, ← extended_iff nonempty]
  exact ⟨fun back => ⟨back.quoted, back.extended⟩, fun ⟨quoted, extended⟩ => ⟨quoted, extended⟩⟩

/-- A plain name comes back from both forms. -/
theorem report_parsed_back : ParsedBack "annual report.pdf" :=
  (parsedBack_iff (by decide) (forall_of_all (by decide))).mpr
    ⟨⟨by decide, by decide, by decide⟩, forall_of_all (by decide)⟩

/-- `a;b.pdf` is cut at its semicolon. -/
theorem semicolon_cut : ¬ ∀ name : String, name ≠ "" →
    (∀ c ∈ name.toList, Text.isControl c = false ∧ c ≠ '"' ∧ c ≠ '\\') → ParsedBack name := by
  intro all
  have back := all "a;b.pdf" (by decide) (forall_of_all (by decide))
  have cut : parseContentDisposition (quotedForm "a;b.pdf") = some "a" := by decide
  exact absurd (Option.some.inj (cut.symm.trans back.quoted)) (by decide)

end Webfang.Domain.Filename
