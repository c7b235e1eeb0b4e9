import Webfang.Library.JsonText

/-!
# The depth of a JSON text

A scan that counts the open brackets outside of strings. It leaves what spells a value at the depth at
which it met it, so a text that ends inside of brackets, or goes on behind the last one, spells nothing.
-/
namespace Library.JsonText

/-- Where a scan stands that met one opening bracket and `depth` more: between tokens, in a string, or
behind a backslash of it; behind the bracket that closes the first one; behind what may not stand there. -/
inductive ScanState where
  | between (depth : Nat)
  | quoted (depth : Nat)
  | escaped (depth : Nat)
  | closed
  | broken
  deriving DecidableEq

namespace ScanState

def next : ScanState → Char → ScanState
  | .between depth, c =>
    if c = '"' then .quoted depth
    else if c = '\x7b' ∨ c = '[' then .between (depth + 1)
    else if c = '\x7d' ∨ c = ']' then
      match depth with
      | 0 => .closed
      | depth + 1 => .between depth
    else .between depth
  | .quoted depth, c => if c = '"' then .between depth else if c = '\\' then .escaped depth else .quoted depth
  | .escaped depth, _ => .quoted depth
  | .closed, c => if isSpace c then .closed else .broken
  | .broken, _ => .broken

def scan (state : ScanState) (text : List Char) : ScanState := text.foldl next state

@[simp] theorem scan_nil (state : ScanState) : state.scan [] = state := rfl

@[simp] theorem scan_cons (state : ScanState) (c : Char) (text : List Char) :
    state.scan (c :: text) = (state.next c).scan text := rfl

@[simp] theorem scan_append (state : ScanState) (text more : List Char) :
    state.scan (text ++ more) = (state.scan text).scan more := List.foldl_append

@[simp] theorem scan_broken (text : List Char) : broken.scan text = .broken := by
  induction text with
  | nil => rfl
  | cons c rest ih => exact ih

theorem scan_closed_iff (text : List Char) :
    closed.scan text = .closed ↔ ∀ c ∈ text, isSpace c = true := by
  induction text with
  | nil => simp
  | cons c rest ih =>
    rw [scan_cons, List.forall_mem_cons]
    by_cases space : isSpace c = true
    · simp [next, space, ih]
    · simp [next, space]

/-! ### Characters that leave the depth -/

/-- No quotation mark and no bracket. -/
def isInert (c : Char) : Bool := !"\"\x7b\x7d[]".toList.contains c

theorem next_inert {c : Char} (inert : isInert c = true) (depth : Nat) :
    (between depth).next c = .between depth := by
  simp only [isInert, Bool.not_eq_true', List.contains_eq_mem, decide_eq_false_iff_not] at inert
  simp at inert
  simp [next, inert]

theorem scan_inert {text : List Char} (inert : ∀ c ∈ text, isInert c = true) (depth : Nat) :
    (between depth).scan text = .between depth := by
  induction text with
  | nil => rfl
  | cons c rest ih =>
    rw [List.forall_mem_cons] at inert
    rw [scan_cons, next_inert inert.1, ih inert.2]

theorem isInert_of_isSpace {c : Char} (space : isSpace c = true) : isInert c = true := by
  simp only [isSpace, Bool.or_eq_true, beq_iff_eq] at space
  rcases space with ((rfl | rfl) | rfl) | rfl <;> decide

theorem isInert_of_isDigit {c : Char} (digit : c.isDigit = true) : isInert c = true := by
  unfold isInert
  rw [Bool.not_eq_true', List.contains_eq_mem, decide_eq_false_iff_not]
  intro member
  have none : ("\"\x7b\x7d[]".toList.all fun c => !c.isDigit) = true := by decide
  simpa [digit] using List.all_eq_true.mp none c member

end ScanState

open ScanState

theorem IsNumber.inert {text : List Char} (number : IsNumber text) : ∀ c ∈ text, isInert c = true :=
  number.forall_mem (fun _ => isInert_of_isDigit) (List.all_eq_true.mp rfl)

theorem inert_toString (n : Int) : ∀ c ∈ (toString n).toList, isInert c = true :=
  forall_mem_toString (fun _ => isInert_of_isDigit) (by decide) n

/-! ### Strings -/

theorem scan_hexDigits {digits : List Char} (hex : ∀ d ∈ digits, isHexDigit d = true) (depth : Nat) :
    (quoted depth).scan digits = .quoted depth := by
  induction digits with
  | nil => rfl
  | cons d rest ih =>
    rw [List.forall_mem_cons] at hex
    have noQuote : d ≠ '"' := by
      rintro rfl
      exact absurd hex.1 (by decide)
    have noEscape : d ≠ '\\' := by
      rintro rfl
      exact absurd hex.1 (by decide)
    rw [scan_cons, ScanState.next, if_neg noQuote, if_neg noEscape, ih hex.2]

theorem SpellsChar.scan_eq {c : Char} {text : List Char} (spelled : SpellsChar c text) (depth : Nat) :
    (quoted depth).scan text = .quoted depth := by
  cases spelled with
  | plain printable noQuote noEscape => simp [ScanState.next, noQuote, noEscape]
  | short listed => simp [ScanState.next]
  | unicode written =>
    have digits := scan_hexDigits written.hex depth
    simp [ScanState.next, digits]
  | surrogates first second =>
    have high := scan_hexDigits first.hex depth
    have low := scan_hexDigits second.hex depth
    simp [ScanState.next, high, low]

theorem SpellsChars.scan_eq {chars text : List Char} (spelled : SpellsChars chars text) (depth : Nat) :
    (quoted depth).scan text = .quoted depth := by
  induction spelled with
  | nil => rfl
  | cons first rest ih => rw [scan_append, first.scan_eq, ih]

theorem SpellsString.scan_eq {s : String} {text : List Char} (spelled : SpellsString s text) (depth : Nat) :
    (between depth).scan text = .between depth := by
  obtain ⟨body, chars, rfl⟩ := spelled
  have inside := chars.scan_eq depth
  simp [ScanState.next, inside]

theorem SpellsKey.scan_eq {key : String} {text : List Char} (spelled : SpellsKey key text) (depth : Nat) :
    (between depth).scan text = .between depth := by
  obtain ⟨before, name, after, named, blank, rfl⟩ := spelled
  rw [List.forall_mem_append] at blank
  have colon : isInert ':' = true := by decide
  rw [scan_append, scan_append, scan_append, scan_inert fun c member => isInert_of_isSpace (blank.1 c member),
    named.scan_eq, scan_inert fun c member => isInert_of_isSpace (blank.2 c member), scan_cons,
    next_inert colon, scan_nil]

/-! ### Values -/

variable {double : List Char → UInt64}

theorem Spells.scan_eq {phrase : Phrase} {text : List Char} (spelled : Spells double phrase text)
    (depth : Nat) : (between depth).scan text = .between depth := by
  have comma : isInert ',' = true := by decide
  induction spelled generalizing depth with
  | null => exact scan_inert (List.all_eq_true.mp (by decide)) depth
  | bool b => cases b <;> exact scan_inert (List.all_eq_true.mp (by decide)) depth
  | int n => exact scan_inert (inert_toString n) depth
  | float number => exact scan_inert number.inert depth
  | str spelled => exact spelled.scan_eq depth
  | arr inner ih => simp [ScanState.next, ih]
  | obj inner ih => simp [ScanState.next, ih]
  | spaced blank inner ih =>
    rw [List.forall_mem_append] at blank
    rw [scan_append, scan_append, scan_inert fun c member => isInert_of_isSpace (blank.1 c member), ih,
      scan_inert fun c member => isInert_of_isSpace (blank.2 c member)]
  | noItems spaces => exact scan_inert (fun c member => isInert_of_isSpace (spaces c member)) depth
  | lastItem last ih => exact ih depth
  | item nonempty first rest ihFirst ihRest =>
    rw [scan_append, ihFirst, scan_cons, next_inert comma, ihRest]
  | noFields spaces => exact scan_inert (fun c member => isInert_of_isSpace (spaces c member)) depth
  | lastField named last ih => rw [scan_append, named.scan_eq, ih]
  | field nonempty named first rest ihFirst ihRest =>
    rw [scan_append, scan_append, named.scan_eq, ihFirst, scan_cons, next_inert comma, ihRest]

/-- A text that begins with a brace ends behind the one that closes it. -/
theorem Spells.scan_object {v : Json} {rest : List Char}
    (spelled : Spells double (.value v) ('\x7b' :: rest)) : (between 0).scan rest = .closed := by
  have general : ∀ {phrase text}, Spells double phrase text →
      match phrase with
      | .value _ => ∀ rest, text = '\x7b' :: rest → (between 0).scan rest = .closed
      | _ => True := by
    intro phrase text spelled
    have noBrace {text rest : List Char} (inert : ∀ c ∈ text, isInert c = true)
      (same : text = '\x7b' :: rest) : False := by
      have brace := inert '\x7b' (by simp [same])
      exact absurd brace (by decide)
    induction spelled with
    | null => exact fun rest same => (noBrace (List.all_eq_true.mp (by decide)) same).elim
    | bool b =>
      cases b <;> exact fun rest same => (noBrace (List.all_eq_true.mp (by decide)) same).elim
    | int n => exact fun rest same => (noBrace (inert_toString n) same).elim
    | float number => exact fun rest same => (noBrace number.inert same).elim
    | str spelled =>
      obtain ⟨body, -, rfl⟩ := spelled
      exact fun rest same => absurd (List.cons.inj same).1 (by decide)
    | arr inner => exact fun rest same => absurd (List.cons.inj same).1 (by decide)
    | obj inner =>
      intro rest same
      rw [← (List.cons.inj same).2, scan_append, inner.scan_eq]
      rfl
    | @spaced v before text after blank inner ih =>
      intro rest same
      rw [List.forall_mem_append] at blank
      cases before with
      | cons c more =>
        have brace := (List.cons.inj same).1
        exact absurd (blank.1 c List.mem_cons_self) (by rw [brace]; decide)
      | nil =>
        cases text with
        | nil =>
          have brace := blank.2 '\x7b' (by rw [List.nil_append, List.nil_append] at same; simp [same])
          exact absurd brace (by decide)
        | cons c more =>
          rw [List.nil_append, List.cons_append, List.cons.injEq] at same
          rcases same with ⟨rfl, rfl⟩
          rw [scan_append, ih more rfl]
          exact (scan_closed_iff after).mpr blank.2
    | noItems => trivial
    | lastItem => trivial
    | item => trivial
    | noFields => trivial
    | lastField => trivial
    | field => trivial
  exact general spelled rest rfl

end Library.JsonText
