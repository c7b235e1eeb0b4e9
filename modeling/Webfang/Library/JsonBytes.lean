import Webfang.Library.CharBoundary
import Webfang.Library.JsonText
import Webfang.Library.Text

/-!
# JSON texts as bytes

The bytes that structure a JSON text are ASCII, so that they can be followed byte by byte. A
string is closed by the first quotation mark that no backslash escapes, and inside a value
brackets and strings are balanced.
-/
namespace Library.JsonBytes

open JsonText Subslice

def quote : UInt8 := 0x22
def backslash : UInt8 := 0x5C
def openBrace : UInt8 := 0x7B
def closeBrace : UInt8 := 0x7D
def openBracket : UInt8 := 0x5B
def closeBracket : UInt8 := 0x5D
def comma : UInt8 := 0x2C
def colon : UInt8 := 0x3A

/-- JSON white space. -/
def isWs (b : UInt8) : Bool := b == 0x20 || b == 0x09 || b == 0x0A || b == 0x0D

/-- What stands between the quotation marks of a string. -/
inductive Inner : List UInt8 → Prop
  | nil : Inner []
  | plain {b : UInt8} {rest : List UInt8} (noQuote : b ≠ quote) (noEscape : b ≠ backslash)
    (more : Inner rest) : Inner (b :: rest)
  | escape {b : UInt8} {rest : List UInt8} (more : Inner rest) : Inner (backslash :: b :: rest)

/-- Neither a quotation mark nor a bracket. -/
def isOther (b : UInt8) : Bool :=
  b != quote && b != openBrace && b != openBracket && b != closeBrace && b != closeBracket

/-- Bytes with balanced brackets, strings apart. -/
inductive Balanced : List UInt8 → Prop
  | nil : Balanced []
  | other {b : UInt8} {rest : List UInt8} (plain : isOther b = true) (more : Balanced rest) :
    Balanced (b :: rest)
  | string {inner rest : List UInt8} (body : Inner inner) (more : Balanced rest) :
    Balanced (quote :: (inner ++ quote :: rest))
  | group {left right : UInt8} {inner rest : List UInt8} (opens : left = openBrace ∨ left = openBracket)
    (closes : right = closeBrace ∨ right = closeBracket) (body : Balanced inner) (more : Balanced rest) :
    Balanced (left :: (inner ++ right :: rest))

/-- A value without white space around it. -/
inductive Core : List UInt8 → Prop
  | scalar {bytes : List UInt8} (plain : ∀ b ∈ bytes, isOther b = true ∧ b ≠ comma ∧ isWs b = false)
    (nonempty : bytes ≠ []) : Core bytes
  | string {inner : List UInt8} (body : Inner inner) : Core (quote :: (inner ++ [quote]))
  | group {left right : UInt8} {inner : List UInt8} (opens : left = openBrace ∨ left = openBracket)
    (closes : right = closeBrace ∨ right = closeBracket) (body : Balanced inner) :
    Core (left :: (inner ++ [right]))

theorem Inner.append {front back : List UInt8} (first : Inner front) (second : Inner back) :
    Inner (front ++ back) := by
  induction first with
  | nil => exact second
  | plain noQuote noEscape _ ih => exact .plain noQuote noEscape ih
  | escape _ ih => exact .escape ih

theorem Balanced.append {front back : List UInt8} (first : Balanced front) (second : Balanced back) :
    Balanced (front ++ back) := by
  induction first with
  | nil => exact second
  | other plain _ ih => exact .other plain ih
  | string body _ ih => simpa using Balanced.string body ih
  | group opens closes body _ _ ih => simpa using Balanced.group opens closes body ih

theorem Balanced.of_others {bytes : List UInt8} (plain : ∀ b ∈ bytes, isOther b = true) : Balanced bytes := by
  induction bytes with
  | nil => exact .nil
  | cons b rest ih =>
    exact .other (plain b List.mem_cons_self) (ih fun c member => plain c (List.mem_cons_of_mem _ member))

/-! ### The bytes of characters -/

/-- A byte of a character is a given ASCII byte only if the character is. -/
theorem ne_of_mem_encodeChars {chars : List Char} {b ascii : UInt8} (low : ascii.toNat < 128)
    (absent : ∀ c ∈ chars, c.toNat ≠ ascii.toNat) (member : b ∈ encodeChars chars) : b ≠ ascii := by
  rintro rfl
  obtain ⟨c, inside, here⟩ := List.mem_flatMap.mp member
  exact absent c inside (toNat_of_mem_encodeChar low here)

theorem encodeChars_ascii {chars : List Char} (ascii : ∀ c ∈ chars, c.toNat < 128) :
    encodeChars chars = chars.map fun c => UInt8.ofNat c.toNat := by
  induction chars with
  | nil => rfl
  | cons c rest ih =>
    have small : c.val.toNat ≤ 127 := Nat.le_of_lt_succ (ascii c List.mem_cons_self)
    have single : String.utf8EncodeChar c = [UInt8.ofNat c.toNat] := if_pos small
    rw [encodeChars_cons, single, ih fun d member => ascii d (List.mem_cons_of_mem _ member)]
    rfl

/-- The bytes that structure a text, by their characters. -/
theorem isOther_of_mem {chars : List Char}
    (plain : ∀ c ∈ chars, c ≠ '"' ∧ c ≠ '\x7b' ∧ c ≠ '[' ∧ c ≠ '\x7d' ∧ c ≠ ']') {b : UInt8}
    (member : b ∈ encodeChars chars) : isOther b = true := by
  have apart (d : Char) (ascii : UInt8) (low : ascii.toNat < 128) (same : d.toNat = ascii.toNat)
      (absent : ∀ c ∈ chars, c ≠ d) : b ≠ ascii :=
    ne_of_mem_encodeChars low
      (fun c inside equal => absent c inside (Char.toNat_inj.mp (equal.trans same.symm))) member
  simp only [isOther, Bool.and_eq_true, bne_iff_ne]
  exact ⟨⟨⟨⟨apart '"' _ (by decide) rfl fun c inside => (plain c inside).1,
    apart '\x7b' _ (by decide) rfl fun c inside => (plain c inside).2.1⟩,
    apart '[' _ (by decide) rfl fun c inside => (plain c inside).2.2.1⟩,
    apart '\x7d' _ (by decide) rfl fun c inside => (plain c inside).2.2.2.1⟩,
    apart ']' _ (by decide) rfl fun c inside => (plain c inside).2.2.2.2⟩

theorem isSpace_cases {c : Char} (space : isSpace c = true) : c = ' ' ∨ c = '\t' ∨ c = '\n' ∨ c = '\r' := by
  simpa [isSpace, or_assoc] using space

theorem isWs_of_mem {chars : List Char} (blank : ∀ c ∈ chars, isSpace c = true) {b : UInt8}
    (member : b ∈ encodeChars chars) : isWs b = true := by
  obtain ⟨c, inside, here⟩ := List.mem_flatMap.mp member
  rcases isSpace_cases (blank c inside) with rfl | rfl | rfl | rfl
  all_goals
    simp only [show ∀ c : Char, String.utf8EncodeChar c = encodeChars [c] from fun c => by simp] at here
    rw [encodeChars_ascii (forall_of_all (by decide))] at here
    simp only [List.map_cons, List.map_nil, List.mem_singleton] at here
    subst here
    decide

theorem isWs_cases {b : UInt8} (blank : isWs b = true) : b = 0x20 ∨ b = 0x09 ∨ b = 0x0A ∨ b = 0x0D := by
  simpa [isWs, or_assoc] using blank

theorem isOther_of_isWs {b : UInt8} (blank : isWs b = true) : isOther b = true := by
  rcases isWs_cases blank with rfl | rfl | rfl | rfl <;> decide

/-! ### Strings -/

theorem Inner.of_plain {bytes : List UInt8} (plain : ∀ b ∈ bytes, b ≠ quote ∧ b ≠ backslash) :
    Inner bytes := by
  induction bytes with
  | nil => exact .nil
  | cons b rest ih =>
    have first := plain b List.mem_cons_self
    exact .plain first.1 first.2 (ih fun c member => plain c (List.mem_cons_of_mem _ member))

theorem inner_of_chars {chars : List Char} (plain : ∀ c ∈ chars, c ≠ '"' ∧ c ≠ '\\') :
    Inner (encodeChars chars) := by
  apply Inner.of_plain
  intro b member
  constructor
  · exact ne_of_mem_encodeChars (by decide)
      (fun c inside equal => (plain c inside).1 (Char.toNat_inj.mp equal)) member
  · exact ne_of_mem_encodeChars (by decide)
      (fun c inside equal => (plain c inside).2 (Char.toNat_inj.mp equal)) member

theorem plain_of_isHexDigit {c : Char} (hex : isHexDigit c = true) : c ≠ '"' ∧ c ≠ '\\' := by
  constructor <;> rintro rfl <;> exact absurd hex (by decide)

theorem encode_escape {letter : Char} (ascii : letter.toNat < 128) (rest : List Char) :
    encodeChars ('\\' :: letter :: rest) = backslash :: UInt8.ofNat letter.toNat :: encodeChars rest := by
  have front : encodeChars ['\\', letter] = [backslash, UInt8.ofNat letter.toNat] := by
    rw [encodeChars_ascii]
    · rfl
    · intro c member
      simp only [List.mem_cons, List.not_mem_nil, or_false] at member
      rcases member with rfl | rfl
      · decide
      · exact ascii
  rw [show '\\' :: letter :: rest = ['\\', letter] ++ rest from rfl, encodeChars_append, front]
  rfl

theorem inner_of_spellsChar {c : Char} {text : List Char} (spelled : SpellsChar c text) :
    Inner (encodeChars text) := by
  cases spelled with
  | plain _ noQuote noEscape => exact inner_of_chars (by simp [noQuote, noEscape])
  | short listed =>
    have ascii : ∀ pair ∈ shortEscapes, pair.1.toNat < 128 := by decide
    rw [encode_escape (ascii _ listed)]
    exact .escape .nil
  | unicode written =>
    rw [encode_escape (by decide)]
    exact .escape (inner_of_chars fun d member => plain_of_isHexDigit (written.hex d member))
  | @surrogates _ high low _ _ first second =>
    rw [List.cons_append, List.cons_append, encode_escape (by decide), encodeChars_append,
      encode_escape (by decide)]
    have leading : Inner (encodeChars high) :=
      inner_of_chars fun d member => plain_of_isHexDigit (first.hex d member)
    have trailing : Inner (encodeChars low) :=
      inner_of_chars fun d member => plain_of_isHexDigit (second.hex d member)
    exact .escape (leading.append (.escape trailing))

theorem inner_of_spellsChars {chars text : List Char} (spelled : SpellsChars chars text) :
    Inner (encodeChars text) := by
  induction spelled with
  | nil => exact .nil
  | cons first _ ih =>
    rw [encodeChars_append]
    exact (inner_of_spellsChar first).append ih

/-- Without an escape a string spells itself. -/
theorem eq_of_unescaped {chars text : List Char} (spelled : SpellsChars chars text)
    (unescaped : '\\' ∉ text) : text = chars := by
  induction spelled with
  | nil => rfl
  | cons first _ ih =>
    rw [List.mem_append, not_or] at unescaped
    rw [ih unescaped.2]
    cases first with
    | plain => rfl
    | short => exact absurd List.mem_cons_self unescaped.1
    | unicode => exact absurd List.mem_cons_self unescaped.1
    | surrogates => exact absurd List.mem_cons_self unescaped.1

theorem encode_quoted (body : List Char) :
    encodeChars ('"' :: (body ++ ['"'])) = quote :: (encodeChars body ++ [quote]) := by
  rw [show '"' :: (body ++ ['"']) = ['"'] ++ body ++ ['"'] by simp, encodeChars_append, encodeChars_append,
    show encodeChars ['"'] = [quote] from encodeChars_ascii (forall_of_all (by decide))]
  simp

/-! ### Scalars -/

/-- A character of a number or of a constant. -/
def isScalar (c : Char) : Bool := c.isAlphanum || c == '-' || c == '+' || c == '.'

theorem scalar_of_chars {chars : List Char} (plain : ∀ c ∈ chars, isScalar c = true) (nonempty : chars ≠ []) :
    Core (encodeChars chars) := by
  apply Core.scalar
  · intro b member
    have apart (d : Char) (ascii : UInt8) (low : ascii.toNat < 128) (same : d.toNat = ascii.toNat)
        (other : isScalar d = false) : b ≠ ascii :=
      ne_of_mem_encodeChars low (fun c inside equal => by
        rw [← same] at equal
        rw [Char.toNat_inj.mp equal] at inside
        exact absurd (plain d inside) (by simp [other])) member
    refine ⟨?_, apart ',' _ (by decide) rfl (by decide), ?_⟩
    · apply isOther_of_mem _ member
      intro c inside
      refine ⟨?_, ?_, ?_, ?_, ?_⟩ <;> rintro rfl <;> exact absurd (plain _ inside) (by decide)
    · simp only [isWs, Bool.or_eq_false_iff, beq_eq_false_iff_ne]
      exact ⟨⟨⟨apart ' ' _ (by decide) rfl (by decide), apart '\t' _ (by decide) rfl (by decide)⟩,
        apart '\n' _ (by decide) rfl (by decide)⟩, apart '\r' _ (by decide) rfl (by decide)⟩
  · cases chars with
    | nil => exact absurd rfl nonempty
    | cons c rest =>
      rw [encodeChars_cons]
      intro empty
      exact String.utf8EncodeChar_ne_nil (List.append_eq_nil_iff.mp empty).1

theorem isScalar_of_isDigit {c : Char} (digit : c.isDigit = true) : isScalar c = true := by
  simp [isScalar, Char.isAlphanum, digit]

theorem scalar_toString (n : Int) : ∀ c ∈ (toString n).toList, isScalar c = true :=
  forall_mem_toString (fun _ => isScalar_of_isDigit) (by decide) n

theorem toString_ne_nil (n : Int) : (toString n).toList ≠ [] := by
  have natural (m : Nat) : (toString m).toList ≠ [] := by
    rw [show (toString m).toList = Nat.toDigits 10 m by simp]
    exact Nat.toDigits_ne_nil
  cases n with
  | ofNat m => exact natural m
  | negSucc m =>
    change ("-" ++ toString (m + 1)).toList ≠ []
    rw [String.toList_append]
    simp

theorem scalar_of_isNumber {text : List Char} (number : IsNumber text) :
    (∀ c ∈ text, isScalar c = true) ∧ text ≠ [] := by
  refine ⟨number.forall_mem (fun _ => isScalar_of_isDigit) (List.all_eq_true.mp rfl), ?_⟩
  obtain ⟨sign, whole, fraction, exponent, rfl, signed, first, second, third⟩ := number.parts
  intro empty
  have none : whole = [] := by simp_all
  rcases first with rfl | ⟨digits, -⟩
  · cases none
  · rw [none] at digits
    exact absurd digits (by decide)

/-! ### Values -/

theorem Core.balanced {bytes : List UInt8} (core : Core bytes) : Balanced bytes := by
  cases core with
  | scalar plain => exact .of_others fun b member => (plain b member).1
  | string body => exact .string body .nil
  | group opens closes body => exact .group opens closes body .nil

theorem core_first {bytes : List UInt8} (core : Core bytes) :
    ∃ b rest, bytes = b :: rest ∧ isWs b = false := by
  cases core with
  | scalar plain nonempty =>
    cases bytes with
    | nil => exact absurd rfl nonempty
    | cons b rest => exact ⟨b, rest, rfl, (plain b List.mem_cons_self).2.2⟩
  | string => exact ⟨_, _, rfl, rfl⟩
  | group opens => rcases opens with rfl | rfl <;> exact ⟨_, _, rfl, rfl⟩

/-- A value with white space around it. -/
structure Shaped (bytes : List UInt8) : Prop where
  parts : ∃ before core after, bytes = before ++ core ++ after ∧ (∀ b ∈ before, isWs b = true) ∧
    (∀ b ∈ after, isWs b = true) ∧ Core core

theorem Shaped.of_core {bytes : List UInt8} (core : Core bytes) : Shaped bytes :=
  ⟨[], bytes, [], by simp, by simp, by simp, core⟩

theorem Shaped.balanced {bytes : List UInt8} (shaped : Shaped bytes) : Balanced bytes := by
  obtain ⟨before, core, after, rfl, opening, closing, value⟩ := shaped.parts
  exact ((Balanced.of_others fun b member => isOther_of_isWs (opening b member)).append value.balanced).append
    (.of_others fun b member => isOther_of_isWs (closing b member))

theorem Shaped.spaced {before bytes after : List UInt8} (opening : ∀ b ∈ before, isWs b = true)
    (closing : ∀ b ∈ after, isWs b = true) (shaped : Shaped bytes) : Shaped (before ++ bytes ++ after) := by
  obtain ⟨front, core, back, rfl, inner, outer, value⟩ := shaped.parts
  refine ⟨before ++ front, core, back ++ after, by simp, ?_, ?_, value⟩
  · intro b member
    exact (List.mem_append.mp member).elim (opening b) (inner b)
  · intro b member
    exact (List.mem_append.mp member).elim (outer b) (closing b)

theorem balanced_of_spellsKey {key : String} {text : List Char} (named : SpellsKey key text) :
    Balanced (encodeChars text) := by
  obtain ⟨before, name, after, ⟨body, chars, rfl⟩, blank, rfl⟩ := named
  have others {text : List Char} (blank : ∀ c ∈ text, isSpace c = true) : Balanced (encodeChars text) :=
    .of_others fun b member => isOther_of_isWs (isWs_of_mem blank member)
  have last : Balanced (encodeChars [':']) := by
    rw [encodeChars_ascii (forall_of_all (by decide))]
    exact .of_others (forall_of_all (by decide))
  simp only [encodeChars_append, encode_quoted]
  exact (((others fun c member => blank c (List.mem_append_left _ member)).append
    (.string (inner_of_spellsChars chars) .nil)).append
    (others fun c member => blank c (List.mem_append_right _ member))).append last

/-- What each kind of phrase looks like. -/
def PhraseShaped : Phrase → List UInt8 → Prop
  | .value _, bytes => Shaped bytes
  | .items _, bytes => Balanced bytes
  | .fields _, bytes => Balanced bytes

theorem encode_between (left right : Char) (low : left.toNat < 128 ∧ right.toNat < 128) (text : List Char) :
    encodeChars (left :: (text ++ [right])) =
      UInt8.ofNat left.toNat :: (encodeChars text ++ [UInt8.ofNat right.toNat]) := by
  have single (c : Char) (ascii : c.toNat < 128) : encodeChars [c] = [UInt8.ofNat c.toNat] :=
    encodeChars_ascii (by simpa using ascii)
  rw [show left :: (text ++ [right]) = [left] ++ text ++ [right] by simp, encodeChars_append,
    encodeChars_append, single left low.1, single right low.2]
  simp

theorem balanced_comma (rest : List Char) (more : Balanced (encodeChars rest)) :
    Balanced (encodeChars (',' :: rest)) := by
  rw [show ',' :: rest = [','] ++ rest from rfl, encodeChars_append,
    encodeChars_ascii (forall_of_all (by decide))]
  exact .other (by decide) more

theorem shaped_of_spells {double : List Char → UInt64} {phrase : Phrase} {text : List Char}
    (spelled : Spells double phrase text) : PhraseShaped phrase (encodeChars text) := by
  induction spelled with
  | null => exact .of_core (scalar_of_chars (forall_of_all (by decide)) (by decide))
  | bool b => cases b <;> exact .of_core (scalar_of_chars (forall_of_all (by decide)) (by decide))
  | int n => exact .of_core (scalar_of_chars (scalar_toString n) (toString_ne_nil n))
  | float number =>
    have scalar := scalar_of_isNumber number
    exact .of_core (scalar_of_chars scalar.1 scalar.2)
  | str spelled =>
    obtain ⟨body, chars, rfl⟩ := spelled
    rw [encode_quoted]
    exact .of_core (.string (inner_of_spellsChars chars))
  | arr inner ih =>
    rw [encode_between _ _ (by decide)]
    exact .of_core (.group (.inr rfl) (.inr rfl) ih)
  | obj inner ih =>
    rw [encode_between _ _ (by decide)]
    exact .of_core (.group (.inl rfl) (.inl rfl) ih)
  | spaced blank inner ih =>
    rw [encodeChars_append, encodeChars_append]
    exact Shaped.spaced (fun b => isWs_of_mem fun c member => blank c (List.mem_append_left _ member))
      (fun b => isWs_of_mem fun c member => blank c (List.mem_append_right _ member)) ih
  | noItems spaces => exact .of_others fun b member => isOther_of_isWs (isWs_of_mem spaces member)
  | lastItem last ih => exact Shaped.balanced ih
  | item nonempty first rest ihFirst ihRest =>
    rw [encodeChars_append]
    exact (Shaped.balanced ihFirst).append (balanced_comma _ ihRest)
  | noFields spaces => exact .of_others fun b member => isOther_of_isWs (isWs_of_mem spaces member)
  | lastField named last ih =>
    rw [encodeChars_append]
    exact (balanced_of_spellsKey named).append (Shaped.balanced ih)
  | field nonempty named first rest ihFirst ihRest =>
    rw [encodeChars_append, encodeChars_append]
    exact ((balanced_of_spellsKey named).append (Shaped.balanced ihFirst)).append (balanced_comma _ ihRest)

end Library.JsonBytes
