import Webfang.Library.Json
import Webfang.Library.QuotedText
import Webfang.Library.Segments

/-!
# The accessibility snapshot

`playwright` writes one line for each node that is kept: role, quoted name, reference, properties and
quoted value. The names of properties, the text of a JSON value and the lower case of a string come
from elsewhere and are parameters.
-/
namespace Webfang.Axtree

open Library QuotedText

structure AxValue where
  value : Option Json

structure AxProperty (κ : Type) where
  name : κ
  value : AxValue

structure AxNode (κ : Type) where
  ignored : Bool
  role : Option AxValue
  name : Option AxValue
  value : Option AxValue
  properties : Option (List (AxProperty κ))

structure PlaywrightSnapshot where
  content : String
  tokenEstimate : Nat
  refCount : Nat
  deriving DecidableEq

def axValueStr (value : Option AxValue) : String := ((value.bind AxValue.value).bind Json.asStr).getD ""

def interactiveRoles : List String :=
  ["button", "link", "textbox", "checkbox", "radio", "combobox", "listbox", "menuitem", "tab", "switch",
    "slider", "spinbutton", "searchbox", "treeitem", "option"]

def eqIgnoreAsciiCase (a b : String) : Bool := a.toList.map Char.toLower == b.toList.map Char.toLower

def isInteractiveRole (role : String) : Bool := interactiveRoles.any (eqIgnoreAsciiCase role)

/-- The arms of `escape_name`. -/
def escapeChar (ch : Char) : List Char :=
  if ch = '"' then ['\\', '"']
  else if ch = '\\' then ['\\', '\\']
  else if ch = '\n' then ['\\', 'n']
  else if ch = '\r' then ['\\', 'r']
  else [ch]

def escapeName (raw : String) : List Char := raw.toList.flatMap escapeChar

def axReference (n : Nat) : List Char := 'e' :: (toString n).toList

/-- The characters that are escaped, and the letter behind the backslash. -/
def escapes : List (Char × Char) := [('"', '"'), ('\\', '\\'), ('\n', 'n'), ('\r', 'r')]

theorem escapeChar_cases (c : Char) : (escapeChar c = [c] ∧ c ≠ '"' ∧ c ≠ '\\' ∧ c ≠ '\n') ∨
      ∃ letter, (c, letter) ∈ escapes ∧ escapeChar c = ['\\', letter] := by
  unfold escapeChar
  split
  next same => exact .inr ⟨'"', by simp [escapes, same], rfl⟩
  next noQuote =>
    split
    next same => exact .inr ⟨'\\', by simp [escapes, same], rfl⟩
    next noEscape =>
      split
      next same => exact .inr ⟨'n', by simp [escapes, same], rfl⟩
      next noBreak =>
        split
        next same => exact .inr ⟨'r', by simp [escapes, same], rfl⟩
        next => exact .inl ⟨rfl, noQuote, noEscape, noBreak⟩

theorem escapeChar_append_inj {c d : Char} {xs ys : List Char}
    (same : escapeChar c ++ xs = escapeChar d ++ ys) :
    c = d ∧ xs = ys := by
  have known : ∀ p ∈ escapes, ∀ q ∈ escapes, p.2 = q.2 → p.1 = q.1 := by decide
  rcases escapeChar_cases c with ⟨plain, _, noEscape, _⟩ | ⟨letter, listed, spelled⟩
  · rcases escapeChar_cases d with ⟨plain', _⟩ | ⟨letter', _, spelled'⟩
    · rw [plain, plain'] at same
      exact List.cons.inj same
    · rw [plain, spelled'] at same
      exact absurd (List.cons.inj same).1 noEscape
  · rcases escapeChar_cases d with ⟨plain', _, noEscape', _⟩ | ⟨letter', listed', spelled'⟩
    · rw [spelled, plain'] at same
      exact absurd (List.cons.inj same).1.symm noEscape'
    · rw [spelled, spelled'] at same
      obtain ⟨letters, rest⟩ := List.cons.inj (List.cons.inj same).2
      exact ⟨known _ listed _ listed' letters, rest⟩

/-- Escaped text is ended by the first quotation mark, and says what was escaped. -/
theorem flatMap_escapeChar_inj {chars others xs ys : List Char}
    (same : chars.flatMap escapeChar ++ '"' :: xs = others.flatMap escapeChar ++ '"' :: ys) :
    chars = others ∧ xs = ys := by
  -- a quotation mark never starts an escaped character
  have apart (c : Char) (xs ys : List Char) : escapeChar c ++ xs ≠ '"' :: ys := by
    intro equal
    rcases escapeChar_cases c with ⟨plain, noQuote, _⟩ | ⟨letter, _, spelled⟩
    · rw [plain] at equal
      exact noQuote (List.cons.inj equal).1
    · rw [spelled] at equal
      exact absurd (List.cons.inj equal).1 (by decide)
  induction chars generalizing others with
  | nil =>
    cases others with
    | nil => exact ⟨rfl, (List.cons.inj same).2⟩
    | cons d rest =>
      rw [List.flatMap_cons, List.append_assoc] at same
      exact absurd same.symm (apart d _ _)
  | cons c chars ih =>
    cases others with
    | nil =>
      rw [List.flatMap_cons, List.append_assoc] at same
      exact absurd same (apart c _ _)
    | cons d rest =>
      rw [List.flatMap_cons, List.flatMap_cons, List.append_assoc, List.append_assoc] at same
      obtain ⟨rfl, behind⟩ := escapeChar_append_inj same
      obtain ⟨rfl, equal⟩ := ih behind
      exact ⟨rfl, equal⟩

theorem escapeName_inj {name other : String} {xs ys : List Char}
    (same : escapeName name ++ '"' :: xs = escapeName other ++ '"' :: ys) : name = other ∧ xs = ys := by
  obtain ⟨chars, rest⟩ := flatMap_escapeChar_inj same
  exact ⟨String.toList_inj.mp chars, rest⟩

theorem escaped_escapeName (raw : String) : Escaped (escapeName raw) := by
  unfold escapeName
  induction raw.toList with
  | nil => exact .nil
  | cons c rest ih =>
    rw [List.flatMap_cons]
    rcases escapeChar_cases c with ⟨plain, noQuote, noEscape, _⟩ | ⟨letter, _, spelled⟩
    · rw [plain]
      exact .plain noQuote noEscape ih
    · rw [spelled]
      exact .escape ih

theorem newline_notMem_escapeName (raw : String) : '\n' ∉ escapeName raw := by
  have letters : ∀ p ∈ escapes, p.2 ≠ '\n' := by decide
  intro inside
  obtain ⟨c, -, here⟩ := List.mem_flatMap.mp inside
  rcases escapeChar_cases c with ⟨plain, _, _, noBreak⟩ | ⟨letter, listed, spelled⟩
  · rw [plain, List.mem_singleton] at here
    exact noBreak here.symm
  · rw [spelled] at here
    have broken : letter = '\n' := by simpa [eq_comm] using here
    exact letters _ listed broken

variable {κ : Type} (asRef : κ → String) (jsonText : Json → String) (toLowercase : String → String)

def shownText (value : AxValue) : String :=
  if axValueStr (some value) = "" then
    match value.value with
    | some v => if v.asStr.isNone then jsonText v else ""
    | none => ""
  else axValueStr (some value)

def bracket (key text : String) : List Char :=
  if text = "" then '[' :: (key.toList ++ [']']) else '[' :: (key.toList ++ '=' :: (text.toList ++ [']']))

def propertyBracket (property : AxProperty κ) : List Char :=
  bracket (asRef property.name) (shownText jsonText property.value)

def valueBracket (text : String) : List Char :=
  if text = "" then [] else " [value=\"".toList ++ (escapeName text ++ "\"]".toList)

/-- The body of the second loop of `playwright`, without the line break. -/
def renderNode (refCount : Nat) (node : AxNode κ) : List Char :=
  "- ".toList ++ ((axValueStr node.role).toList ++ (" \"".toList ++ (escapeName (axValueStr node.name) ++
    ("\" [ref=".toList ++ (axReference refCount ++ (']' ::
      ((node.properties.getD []).flatMap (fun property => ' ' :: propertyBracket asRef jsonText property) ++
        (node.value.map fun value => valueBracket (shownText jsonText value)).getD [])))))))

/-- The body of the first loop of `playwright`. -/
def keeps (interactiveOnly : Bool) (selector : Option String) (node : AxNode κ) : Bool :=
  let role := axValueStr node.role
  let name := axValueStr node.name
  !node.ignored && !eqIgnoreAsciiCase role "genericcontainer" &&
    (!interactiveOnly || isInteractiveRole role) &&
    (selector.map toLowercase).all fun sel =>
      decide (sel.toList <:+: (toLowercase name).toList) || decide (sel.toList <:+: (toLowercase role).toList)

/-- `filtered`. -/
def kept (nodes : List (AxNode κ)) (interactiveOnly : Bool) (selector : Option String) : List (AxNode κ) :=
  nodes.filter (keeps toLowercase interactiveOnly selector)

def playwright (nodes : List (AxNode κ)) (interactiveOnly : Bool) (selector : Option String) :
    PlaywrightSnapshot :=
  let filtered := kept toLowercase nodes interactiveOnly selector
  if filtered = [] then ⟨"", 0, 0⟩
  else
    let (content, refCount) := filtered.foldl
      (fun (content, refCount) node =>
        (content ++ (renderNode asRef jsonText (refCount + 1) node ++ ['\n']), refCount + 1))
      ([], 0)
    ⟨String.ofList content, content.length / 4, refCount⟩

end Webfang.Axtree
