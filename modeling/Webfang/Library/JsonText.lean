import Mathlib.Data.Bool.AllAny
import Webfang.Library.Json

/-!
# JSON texts

The grammar of JSON as a relation between a value and the texts that spell it, and a compact
writer whose texts spell what it writes. How the text of a number reads as a double is a
parameter.
-/
namespace Library.JsonText

/-! ### Strings -/

def isSpace (c : Char) : Bool := c == ' ' || c == '\t' || c == '\n' || c == '\r'

/-- The letter behind a backslash, and the character it stands for. -/
def shortEscapes : List (Char × Char) :=
  [('"', '"'), ('\\', '\\'), ('/', '/'), ('b', '\x08'), ('f', '\x0C'), ('n', '\n'), ('r', '\r'),
    ('t', '\t')]

def isHexDigit (c : Char) : Bool :=
  c.isDigit || ('a' ≤ c && c ≤ 'f') || ('A' ≤ c && c ≤ 'F')

def hexDigit (c : Char) : Nat :=
  if c.isDigit then c.toNat - 48 else if 'a' ≤ c then c.toNat - 87 else c.toNat - 55

/-- Four hexadecimal digits, and the number they write. -/
structure FourHex (digits : List Char) (value : Nat) : Prop where
  size : digits.length = 4
  hex : ∀ d ∈ digits, isHexDigit d = true
  reads : digits.foldl (fun n d => 16 * n + hexDigit d) 0 = value

inductive SpellsChar : Char → List Char → Prop
  | plain {c : Char} (printable : 0x20 ≤ c.toNat) (noQuote : c ≠ '"') (noEscape : c ≠ '\\') :
    SpellsChar c [c]
  | short {letter c : Char} (listed : (letter, c) ∈ shortEscapes) : SpellsChar c ['\\', letter]
  | unicode {c : Char} {digits : List Char} (written : FourHex digits c.toNat) :
    SpellsChar c ('\\' :: 'u' :: digits)
  | surrogates {c : Char} {high low : List Char} {h l : Nat} (first : FourHex high (0xD800 + h))
    (second : FourHex low (0xDC00 + l)) (inner : h < 0x400 ∧ l < 0x400)
    (value : c.toNat = 0x10000 + 0x400 * h + l) :
    SpellsChar c ('\\' :: 'u' :: high ++ '\\' :: 'u' :: low)

inductive SpellsChars : List Char → List Char → Prop
  | nil : SpellsChars [] []
  | cons {c : Char} {chars text more : List Char} (first : SpellsChar c text)
    (rest : SpellsChars chars more) : SpellsChars (c :: chars) (text ++ more)

def SpellsString (s : String) (text : List Char) : Prop :=
  ∃ body, SpellsChars s.toList body ∧ text = '"' :: (body ++ ['"'])

/-! ### Values -/

def isDigits (text : List Char) : Bool := text != [] && text.all Char.isDigit

/-- A number with a fraction or an exponent. -/
structure IsNumber (text : List Char) : Prop where
  parts : ∃ sign whole fraction exponent, text = sign ++ whole ++ fraction ++ exponent ∧
    (sign = [] ∨ sign = ['-']) ∧
    (whole = ['0'] ∨ (isDigits whole = true ∧ whole.head? ≠ some '0')) ∧
    (fraction = [] ∨ ∃ digits, fraction = '.' :: digits ∧ isDigits digits = true) ∧
    (exponent = [] ∨ ∃ e sign digits, exponent = e :: sign ++ digits ∧ (e = 'e' ∨ e = 'E') ∧
      (sign = [] ∨ sign = ['+'] ∨ sign = ['-']) ∧ isDigits digits = true)

/-- What a part of a text spells: a value, the items of an array, the fields of an object. -/
inductive Phrase where
  | value (v : Json)
  | items (vs : List Json)
  | fields (fs : List (String × Json))

def SpellsKey (key : String) (text : List Char) : Prop :=
  ∃ before name after, SpellsString key name ∧ (∀ c ∈ before ++ after, isSpace c = true) ∧
    text = before ++ name ++ after ++ [':']

variable (double : List Char → UInt64)

inductive Spells : Phrase → List Char → Prop
  | null : Spells (.value .null) "null".toList
  | bool (b : Bool) : Spells (.value (.bool b)) (toString b).toList
  | int (n : Int) : Spells (.value (.int n)) (toString n).toList
  | float {bits : UInt64} {text : List Char} (number : IsNumber text) (reads : double text = bits) :
    Spells (.value (.float bits)) text
  | str {s : String} {text : List Char} (spelled : SpellsString s text) : Spells (.value (.str s)) text
  | arr {items : List Json} {text : List Char} (inner : Spells (.items items) text) :
    Spells (.value (.arr items)) ('[' :: (text ++ [']']))
  | obj {fields : List (String × Json)} {text : List Char} (inner : Spells (.fields fields) text) :
    Spells (.value (.obj fields)) ('\x7b' :: (text ++ ['\x7d']))
  | spaced {v : Json} {before text after : List Char}
    (blank : ∀ c ∈ before ++ after, isSpace c = true) (inner : Spells (.value v) text) :
    Spells (.value v) (before ++ text ++ after)
  | noItems {blank : List Char} (spaces : ∀ c ∈ blank, isSpace c = true) : Spells (.items []) blank
  | lastItem {v : Json} {text : List Char} (last : Spells (.value v) text) : Spells (.items [v]) text
  | item {v : Json} {vs : List Json} {text more : List Char} (nonempty : vs ≠ [])
    (first : Spells (.value v) text) (rest : Spells (.items vs) more) :
    Spells (.items (v :: vs)) (text ++ ',' :: more)
  | noFields {blank : List Char} (spaces : ∀ c ∈ blank, isSpace c = true) : Spells (.fields []) blank
  | lastField {key : String} {v : Json} {name text : List Char} (named : SpellsKey key name)
    (last : Spells (.value v) text) : Spells (.fields [(key, v)]) (name ++ text)
  | field {key : String} {v : Json} {fs : List (String × Json)} {name text more : List Char}
    (nonempty : fs ≠ []) (named : SpellsKey key name) (first : Spells (.value v) text)
    (rest : Spells (.fields fs) more) : Spells (.fields ((key, v) :: fs)) (name ++ text ++ ',' :: more)

/-! ### The characters of a number -/

section Numbers

variable {p : Char → Prop}

/-- What holds of digits and of the marks in a number holds of each of its characters. -/
theorem IsNumber.forall_mem {text : List Char} (number : IsNumber text)
    (ofDigit : ∀ c : Char, c.isDigit = true → p c) (marks : ∀ c ∈ ['+', '-', '.', 'e', 'E'], p c) :
    ∀ c ∈ text, p c := by
  obtain ⟨sign, whole, fraction, exponent, rfl, signed, first, second, third⟩ := number.parts
  have mark {c : Char} (listed : c ∈ ['+', '-', '.', 'e', 'E']) : ∀ d ∈ [c], p d :=
    List.forall_mem_singleton.mpr (marks c listed)
  have all {digits : List Char} (written : isDigits digits = true) : ∀ c ∈ digits, p c := by
    simp only [isDigits, Bool.and_eq_true, List.all_eq_true] at written
    exact fun c member => ofDigit c (written.2 c member)
  have inSign : ∀ c ∈ sign, p c := by
    rcases signed with rfl | rfl
    · exact List.forall_mem_nil p
    · exact mark (by decide)
  have inWhole : ∀ c ∈ whole, p c := by
    rcases first with rfl | ⟨digits, -⟩
    · exact List.forall_mem_singleton.mpr (ofDigit '0' (by decide))
    · exact all digits
  have inFraction : ∀ c ∈ fraction, p c := by
    rcases second with rfl | ⟨digits, rfl, written⟩
    · exact List.forall_mem_nil p
    · exact List.forall_mem_cons.mpr ⟨marks '.' (by decide), all written⟩
  have inExponent : ∀ c ∈ exponent, p c := by
    rcases third with rfl | ⟨e, sign, digits, rfl, letter, signed, written⟩
    · exact List.forall_mem_nil p
    · rw [List.cons_append, List.forall_mem_cons, List.forall_mem_append]
      refine ⟨marks e (by rcases letter with rfl | rfl <;> decide), ?_, all written⟩
      rcases signed with rfl | rfl | rfl
      · exact List.forall_mem_nil p
      · exact mark (by decide)
      · exact mark (by decide)
  rw [List.forall_mem_append, List.forall_mem_append, List.forall_mem_append]
  exact ⟨⟨⟨inSign, inWhole⟩, inFraction⟩, inExponent⟩

theorem forall_mem_toString (ofDigit : ∀ c : Char, c.isDigit = true → p c) (minus : p '-') (n : Int) :
    ∀ c ∈ (toString n).toList, p c := by
  have natural (m : Nat) : ∀ c ∈ (toString m).toList, p c := by
    intro c member
    have written : (toString m).toList = Nat.toDigits 10 m := by simp
    rw [written] at member
    exact ofDigit c (Nat.isDigit_of_mem_toDigits (by decide) (by decide) member)
  cases n with
  | ofNat m => exact natural m
  | negSucc m =>
    have written : (toString (Int.negSucc m)).toList = '-' :: (toString (m + 1)).toList := by
      change ("-" ++ toString (m + 1)).toList = _
      rw [String.toList_append]
      rfl
    rw [written]
    exact List.forall_mem_cons.mpr ⟨minus, natural (m + 1)⟩

end Numbers

/-! ### The characters of a text -/

/-- No control character but white space. -/
def isAllowed (c : Char) : Bool := 0x20 ≤ c.toNat || isSpace c

theorem isAllowed_of_le {c : Char} (printable : 0x20 ≤ c.toNat) : isAllowed c = true := by
  simp [isAllowed, printable]

theorem isAllowed_of_isSpace {c : Char} (space : isSpace c = true) : isAllowed c = true := by
  simp [isAllowed, space]

theorem printable_of_isDigit {c : Char} (digit : c.isDigit = true) : 0x20 ≤ c.toNat := by
  rw [Char.isDigit_iff_toNat] at digit
  simp only [Char.reduceToNat] at digit
  omega

theorem isAllowed_of_isDigit {c : Char} (digit : c.isDigit = true) : isAllowed c = true :=
  isAllowed_of_le (printable_of_isDigit digit)

theorem isAllowed_of_isHexDigit {c : Char} (hex : isHexDigit c = true) : isAllowed c = true := by
  simp only [isHexDigit, Bool.or_eq_true, Bool.and_eq_true, decide_eq_true_eq] at hex
  rcases hex with (digit | ⟨low, -⟩) | ⟨low, -⟩
  · exact isAllowed_of_isDigit digit
  · exact isAllowed_of_le (Nat.le_trans (by decide) (UInt32.le_iff_toNat_le.mp low))
  · exact isAllowed_of_le (Nat.le_trans (by decide) (UInt32.le_iff_toNat_le.mp low))

theorem FourHex.allowed {digits : List Char} {value : Nat} (written : FourHex digits value) :
    ∀ d ∈ digits, isAllowed d = true := fun d member => isAllowed_of_isHexDigit (written.hex d member)

theorem SpellsChar.allowed {c : Char} {text : List Char} (spelled : SpellsChar c text) :
    ∀ d ∈ text, isAllowed d = true := by
  cases spelled with
  | plain printable =>
    simp only [List.mem_singleton, forall_eq]
    exact isAllowed_of_le printable
  | short listed =>
    simp only [List.mem_cons, List.not_mem_nil, or_false, forall_eq_or_imp, forall_eq]
    refine ⟨by decide, ?_⟩
    have each : ∀ pair ∈ shortEscapes, isAllowed pair.1 = true := by decide
    exact each _ listed
  | unicode written =>
    simp only [List.mem_cons, forall_eq_or_imp]
    exact ⟨by decide, by decide, written.allowed⟩
  | surrogates first second =>
    simp only [List.cons_append, List.mem_cons, List.mem_append, forall_eq_or_imp]
    refine ⟨by decide, by decide, ?_⟩
    rintro d (high | rfl | rfl | low)
    · exact first.allowed d high
    · decide
    · decide
    · exact second.allowed d low

theorem SpellsChars.allowed {chars text : List Char} (spelled : SpellsChars chars text) :
    ∀ d ∈ text, isAllowed d = true := by
  induction spelled with
  | nil => nofun
  | cons first rest ih =>
    intro d member
    rcases List.mem_append.mp member with here | later
    · exact first.allowed d here
    · exact ih d later

theorem SpellsString.allowed {s : String} {text : List Char} (spelled : SpellsString s text) :
    ∀ d ∈ text, isAllowed d = true := by
  obtain ⟨body, chars, rfl⟩ := spelled
  intro d member
  simp only [List.mem_cons, List.mem_append, List.not_mem_nil, or_false] at member
  rcases member with rfl | inside | rfl
  · decide
  · exact chars.allowed d inside
  · decide

theorem SpellsKey.allowed {key : String} {text : List Char} (spelled : SpellsKey key text) :
    ∀ d ∈ text, isAllowed d = true := by
  obtain ⟨before, name, after, named, blank, rfl⟩ := spelled
  intro d member
  simp only [List.mem_append, List.mem_singleton] at member
  rcases member with ((space | inside) | space) | rfl
  · exact isAllowed_of_isSpace (blank d (List.mem_append_left _ space))
  · exact named.allowed d inside
  · exact isAllowed_of_isSpace (blank d (List.mem_append_right _ space))
  · decide

theorem IsNumber.allowed {text : List Char} (number : IsNumber text) :
    ∀ d ∈ text, isAllowed d = true :=
  number.forall_mem (fun _ => isAllowed_of_isDigit) (List.all_eq_true.mp rfl)

theorem printable_toString (n : Int) : ∀ d ∈ (toString n).toList, 0x20 ≤ d.toNat :=
  forall_mem_toString (fun _ => printable_of_isDigit) (by decide) n

theorem allowed_toString (n : Int) : ∀ d ∈ (toString n).toList, isAllowed d = true :=
  fun d member => isAllowed_of_le (printable_toString n d member)

variable {double} in
theorem Spells.allowed {phrase : Phrase} {text : List Char} (spelled : Spells double phrase text) :
    ∀ d ∈ text, isAllowed d = true := by
  induction spelled with
  | null => exact List.all_eq_true.mp (by decide)
  | bool b => cases b <;> exact List.all_eq_true.mp (by decide)
  | int n => exact allowed_toString n
  | float number => exact number.allowed
  | str spelled => exact spelled.allowed
  | arr inner ih =>
    intro d member
    simp only [List.mem_cons, List.mem_append, List.not_mem_nil, or_false] at member
    rcases member with rfl | inside | rfl
    · decide
    · exact ih d inside
    · decide
  | obj inner ih =>
    intro d member
    simp only [List.mem_cons, List.mem_append, List.not_mem_nil, or_false] at member
    rcases member with rfl | inside | rfl
    · decide
    · exact ih d inside
    · decide
  | spaced blank inner ih =>
    intro d member
    simp only [List.mem_append] at member
    rcases member with (space | inside) | space
    · exact isAllowed_of_isSpace (blank d (List.mem_append_left _ space))
    · exact ih d inside
    · exact isAllowed_of_isSpace (blank d (List.mem_append_right _ space))
  | noItems spaces => exact fun d member => isAllowed_of_isSpace (spaces d member)
  | lastItem last ih => exact ih
  | item nonempty first rest ihFirst ihRest =>
    intro d member
    simp only [List.mem_append, List.mem_cons] at member
    rcases member with here | rfl | later
    · exact ihFirst d here
    · decide
    · exact ihRest d later
  | noFields spaces => exact fun d member => isAllowed_of_isSpace (spaces d member)
  | lastField named last ih =>
    intro d member
    rcases List.mem_append.mp member with name | here
    · exact named.allowed d name
    · exact ih d here
  | field nonempty named first rest ihFirst ihRest =>
    intro d member
    simp only [List.mem_append, List.mem_cons] at member
    rcases member with (name | here) | rfl | later
    · exact named.allowed d name
    · exact ihFirst d here
    · decide
    · exact ihRest d later

/-! ### Joined parts -/

/-- Parts with a comma between each two of them. -/
def joinParts : List (List Char) → List Char
  | [] => []
  | [part] => part
  | part :: next :: rest => part ++ ',' :: joinParts (next :: rest)

variable {double}

theorem Spells.joined {vs : List Json} {texts : List (List Char)}
    (each : List.Forall₂ (fun v text => Spells double (.value v) text) vs texts) :
    Spells double (.items vs) (joinParts texts) := by
  induction each with
  | nil => exact .noItems nofun
  | @cons v text vs texts first rest ih =>
    cases rest with
    | nil => exact .lastItem first
    | cons => exact .item (by simp) first ih

/-! ### The compact writer -/

/-- One character inside a string. -/
def escapeChar (c : Char) : List Char :=
  match shortEscapes.find? fun pair => pair.2 == c && c != '/' with
  | some (letter, _) => ['\\', letter]
  | none =>
    if c.toNat < 0x20 then
      ['\\', 'u', '0', '0', Nat.digitChar (c.toNat / 16), Nat.digitChar (c.toNat % 16)]
    else [c]

def compactString (s : String) : List Char := '"' :: (s.toList.flatMap escapeChar ++ ['"'])

variable (number : UInt64 → List Char)

mutual

/-- A value without white space; `number` writes a double. -/
def compact : Json → List Char
  | .null => "null".toList
  | .bool b => (toString b).toList
  | .int n => (toString n).toList
  | .float bits => number bits
  | .str s => compactString s
  | .arr items => '[' :: (compactItems items ++ [']'])
  | .obj fields => '\x7b' :: (compactFields fields ++ ['\x7d'])

def compactItems : List Json → List Char
  | [] => []
  | [v] => compact v
  | v :: w :: rest => compact v ++ ',' :: compactItems (w :: rest)

def compactFields : List (String × Json) → List Char
  | [] => []
  | [(key, v)] => compactString key ++ [':'] ++ compact v
  | (key, v) :: next :: rest =>
    compactString key ++ [':'] ++ compact v ++ ',' :: compactFields (next :: rest)

end

theorem spellsChar_escapeChar (c : Char) : SpellsChar c (escapeChar c) := by
  unfold escapeChar
  split
  next letter c' found =>
    have meets := List.find?_some found
    simp only [Bool.and_eq_true, beq_iff_eq] at meets
    exact .short (meets.1 ▸ List.mem_of_find?_eq_some found)
  next missing =>
    split
    next control =>
      apply SpellsChar.unicode
      have each : ∀ n : Fin 32,
          ['0', '0', Nat.digitChar (n / 16), Nat.digitChar (n % 16)].all isHexDigit = true ∧
          ['0', '0', Nat.digitChar (n / 16), Nat.digitChar (n % 16)].foldl
            (fun n d => 16 * n + hexDigit d) 0 = n.val := by decide
      exact ⟨rfl, List.all_eq_true.mp (each ⟨c.toNat, control⟩).1, (each ⟨c.toNat, control⟩).2⟩
    next printable =>
      apply SpellsChar.plain
      · omega
      · rintro rfl
        exact absurd missing (by decide)
      · rintro rfl
        exact absurd missing (by decide)

def isPlain (c : Char) : Bool := 0x20 ≤ c.toNat && c != '"' && c != '\\'

/-- A string without quotation marks, backslashes and control characters stands as it is. -/
theorem spellsString_plain {s : String} (plain : s.toList.all isPlain = true) :
    SpellsString s ('"' :: (s.toList ++ ['"'])) := by
  refine ⟨s.toList, ?_, rfl⟩
  generalize s.toList = chars at plain
  induction chars with
  | nil => exact .nil
  | cons c chars ih =>
    obtain ⟨first, rest⟩ := Bool.and_eq_true_iff.mp plain
    simp only [isPlain, Bool.and_eq_true, decide_eq_true_eq, bne_iff_ne] at first
    exact .cons (.plain first.1.1 first.1.2 first.2) (ih rest)

/-- Such a key with its quotation marks and colon. -/
def keyText (before : List Char) (key : String) : List Char :=
  before ++ '"' :: (key.toList ++ ['"', ':'])

theorem spellsKey_plain {key : String} (plain : key.toList.all isPlain = true) {before : List Char}
    (blank : before.all isSpace = true) :
    SpellsKey key (keyText before key) := by
  refine ⟨before, '"' :: (key.toList ++ ['"']), [], spellsString_plain plain, ?_, ?_⟩
  · simpa using List.all_eq_true.mp blank
  · simp [keyText]

theorem Spells.behind {v : Json} {before text : List Char} (blank : before.all isSpace = true)
    (spelled : Spells double (.value v) text) : Spells double (.value v) (before ++ text) := by
  have spaced := @Spells.spaced double v before text [] (by simpa using List.all_eq_true.mp blank) spelled
  simpa using spaced

theorem Spells.before {v : Json} {text after : List Char} (blank : after.all isSpace = true)
    (spelled : Spells double (.value v) text) : Spells double (.value v) (text ++ after) :=
  @Spells.spaced double v [] text after (List.all_eq_true.mp blank) spelled

theorem spellsString_compactString (s : String) : SpellsString s (compactString s) := by
  refine ⟨s.toList.flatMap escapeChar, ?_, rfl⟩
  induction s.toList with
  | nil => exact .nil
  | cons c chars ih => exact .cons (spellsChar_escapeChar c) ih

theorem spellsKey_compactString (key : String) : SpellsKey key (compactString key ++ [':']) :=
  ⟨[], compactString key, [], spellsString_compactString key, nofun, by simp⟩

variable {number}

mutual

theorem spells_compact (written : ∀ bits, IsNumber (number bits) ∧ double (number bits) = bits) :
    (v : Json) → Spells double (.value v) (compact number v)
  | .null => .null
  | .bool b => .bool b
  | .int n => .int n
  | .float bits => .float (written bits).1 (written bits).2
  | .str s => .str (spellsString_compactString s)
  | .arr items => .arr (spells_compactItems written items)
  | .obj fields => .obj (spells_compactFields written fields)

theorem spells_compactItems (written : ∀ bits, IsNumber (number bits) ∧ double (number bits) = bits) :
    (vs : List Json) → Spells double (.items vs) (compactItems number vs)
  | [] => .noItems nofun
  | [v] => .lastItem (spells_compact written v)
  | v :: w :: rest =>
    .item (by simp) (spells_compact written v) (spells_compactItems written (w :: rest))

theorem spells_compactFields (written : ∀ bits, IsNumber (number bits) ∧ double (number bits) = bits) :
    (fs : List (String × Json)) → Spells double (.fields fs) (compactFields number fs)
  | [] => .noFields nofun
  | [(key, v)] => .lastField (spellsKey_compactString key) (spells_compact written v)
  | (key, v) :: next :: rest =>
    .field (by simp) (spellsKey_compactString key) (spells_compact written v)
      (spells_compactFields written (next :: rest))

end

/-! A compact text has no control character at all. -/

theorem printable_escapeChar (c : Char) : ∀ d ∈ escapeChar c, 0x20 ≤ d.toNat := by
  intro d member
  rw [escapeChar] at member
  split at member
  next letter c' found =>
    have letters : ∀ pair ∈ shortEscapes, 0x20 ≤ pair.1.toNat := by decide
    simp only [List.mem_cons, List.not_mem_nil, or_false] at member
    rcases member with rfl | rfl
    · decide
    · exact letters _ (List.mem_of_find?_eq_some found)
  next missing =>
    split at member
    next control =>
      have each : ∀ n : Fin 32, (['\\', 'u', '0', '0', Nat.digitChar (n / 16), Nat.digitChar (n % 16)].all
          fun d => 0x20 ≤ d.toNat) = true := by decide
      exact List.all_iff_forall_prop.mp (each ⟨c.toNat, control⟩) d member
    next printable =>
      rw [List.mem_singleton.mp member]
      omega

theorem printable_compactString (s : String) : ∀ c ∈ compactString s, 0x20 ≤ c.toNat := by
  intro c member
  simp only [compactString, List.mem_cons, List.mem_append, List.mem_flatMap, List.not_mem_nil,
    or_false] at member
  rcases member with rfl | ⟨d, -, inside⟩ | rfl
  · decide
  · exact printable_escapeChar d c inside
  · decide

/-- The names of the constants, and every other text of such characters. -/
theorem printable_name (name : String) (all : (name.toList.all fun c => 0x20 ≤ c.toNat) = true) :
    ∀ c ∈ name.toList, 0x20 ≤ c.toNat :=
  List.all_iff_forall_prop.mp all

mutual

theorem printable_compact (written : ∀ bits, ∀ c ∈ number bits, 0x20 ≤ c.toNat) :
    (v : Json) → ∀ c ∈ compact number v, 0x20 ≤ c.toNat
  | .null => printable_name "null" (by decide)
  | .bool true => printable_name "true" (by decide)
  | .bool false => printable_name "false" (by decide)
  | .int n => printable_toString n
  | .float bits => written bits
  | .str s => printable_compactString s
  | .arr items => by
    intro c member
    simp only [compact, List.mem_cons, List.mem_append, List.not_mem_nil, or_false] at member
    rcases member with rfl | inside | rfl
    · decide
    · exact printable_compactItems written items c inside
    · decide
  | .obj fields => by
    intro c member
    simp only [compact, List.mem_cons, List.mem_append, List.not_mem_nil, or_false] at member
    rcases member with rfl | inside | rfl
    · decide
    · exact printable_compactFields written fields c inside
    · decide

theorem printable_compactItems (written : ∀ bits, ∀ c ∈ number bits, 0x20 ≤ c.toNat) :
    (vs : List Json) → ∀ c ∈ compactItems number vs, 0x20 ≤ c.toNat
  | [] => nofun
  | [v] => printable_compact written v
  | v :: w :: rest => by
    intro c member
    simp only [compactItems, List.mem_append, List.mem_cons] at member
    rcases member with here | rfl | later
    · exact printable_compact written v c here
    · decide
    · exact printable_compactItems written (w :: rest) c later

theorem printable_compactFields (written : ∀ bits, ∀ c ∈ number bits, 0x20 ≤ c.toNat) :
    (fs : List (String × Json)) → ∀ c ∈ compactFields number fs, 0x20 ≤ c.toNat
  | [] => nofun
  | [(key, v)] => by
    intro c member
    simp only [compactFields, List.mem_append, List.mem_cons, List.not_mem_nil, or_false] at member
    rcases member with (name | rfl) | here
    · exact printable_compactString key c name
    · decide
    · exact printable_compact written v c here
  | (key, v) :: next :: rest => by
    intro c member
    simp only [compactFields, List.mem_append, List.mem_cons, List.not_mem_nil, or_false] at member
    rcases member with ((name | rfl) | here) | rfl | later
    · exact printable_compactString key c name
    · decide
    · exact printable_compact written v c here
    · decide
    · exact printable_compactFields written (next :: rest) c later

end

end Library.JsonText
