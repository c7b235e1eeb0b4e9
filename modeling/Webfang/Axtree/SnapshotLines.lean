import Webfang.Axtree.Playwright
import Webfang.Library.Text

/-!
# The lines of a snapshot

A snapshot is the lines of what its nodes show. The name and the value of a node are escaped, its role and
the texts of its properties are written as they are: a line break in these makes another line, and without
quotation marks and references in them a line has its own reference and no other.
-/
namespace Webfang.Axtree

open Library Segments QuotedText

variable {κ : Type} {asRef : κ → String} {jsonText : Json → String} {toLowercase : String → String}

/-! ### What a node shows -/

/-- The strings of a node: an absent one is empty, as in `ax_value_str`. -/
@[ext]
structure NodeTexts (κ : Type) where
  role : String
  name : String
  properties : List (κ × String)
  value : String

variable (jsonText) in
def AxNode.texts (node : AxNode κ) : NodeTexts κ where
  role := axValueStr node.role
  name := axValueStr node.name
  properties := (node.properties.getD []).map fun property =>
    (property.name, shownText jsonText property.value)
  value := (node.value.map (shownText jsonText)).getD ""

variable (asRef) in
/-- What stands behind the reference of a line. -/
def brackets : List (κ × String) → List Char
  | [] => []
  | (key, text) :: rest => ' ' :: (bracket (asRef key) text ++ brackets rest)

variable (asRef) in
def NodeTexts.line (refCount : Nat) (texts : NodeTexts κ) : List Char :=
  "- ".toList ++ (texts.role.toList ++ (" \"".toList ++ (escapeName texts.name ++
    ("\" [ref=".toList ++ (axReference refCount ++ (']' ::
      (brackets asRef texts.properties ++ valueBracket texts.value)))))))

theorem brackets_cons (property : κ × String) (rest : List (κ × String)) (behind : List Char) :
    brackets asRef (property :: rest) ++ behind =
      ' ' :: (bracket (asRef property.1) property.2 ++ (brackets asRef rest ++ behind)) := by
  rw [brackets, List.cons_append, List.append_assoc]

theorem flatMap_propertyBracket (properties : List (AxProperty κ)) :
    properties.flatMap (fun property => ' ' :: propertyBracket asRef jsonText property) =
      brackets asRef (properties.map fun property => (property.name, shownText jsonText property.value)) := by
  induction properties with
  | nil => rfl
  | cons property rest ih =>
    rw [List.flatMap_cons, ih, List.map_cons, brackets, List.cons_append]
    rfl

theorem getD_valueBracket (value : Option AxValue) :
    (value.map fun value => valueBracket (shownText jsonText value)).getD [] =
      valueBracket ((value.map (shownText jsonText)).getD "") := by
  cases value with
  | none => exact (if_pos rfl).symm
  | some value => rfl

theorem renderNode_eq (refCount : Nat) (node : AxNode κ) :
    renderNode asRef jsonText refCount node = (node.texts jsonText).line asRef refCount := by
  rw [renderNode, flatMap_propertyBracket, getD_valueBracket, NodeTexts.line, AxNode.texts]

/-! ### Lines -/

variable (asRef) in
/-- The lines of nodes, whose references go on behind a number. -/
def content (refCount : Nat) : List (NodeTexts κ) → List Char
  | [] => []
  | texts :: rest => texts.line asRef (refCount + 1) ++ '\n' :: content (refCount + 1) rest

/-- The arguments of `playwright`. -/
structure Request (κ : Type) where
  nodes : List (AxNode κ)
  interactiveOnly : Bool
  selector : Option String

variable (toLowercase jsonText) in
/-- What the kept nodes show. -/
def Request.shown (x : Request κ) : List (NodeTexts κ) :=
  (kept toLowercase x.nodes x.interactiveOnly x.selector).map (AxNode.texts jsonText)

variable (asRef toLowercase jsonText) in
def Request.snapshot (x : Request κ) : PlaywrightSnapshot :=
  playwright asRef jsonText toLowercase x.nodes x.interactiveOnly x.selector

theorem foldl_content (nodes : List (AxNode κ)) (written : List Char) (refCount : Nat) :
    nodes.foldl
      (fun (content, refCount) node =>
        (content ++ (renderNode asRef jsonText (refCount + 1) node ++ ['\n']), refCount + 1))
      (written, refCount) =
    (written ++ content asRef refCount (nodes.map (AxNode.texts jsonText)), refCount + nodes.length) := by
  induction nodes generalizing written refCount with
  | nil => simp [content]
  | cons node rest ih =>
    rw [List.foldl_cons, ih, List.map_cons, content, renderNode_eq, List.length_cons]
    simp only [List.append_assoc, List.singleton_append, Prod.mk.injEq, true_and]
    omega

variable (asRef jsonText toLowercase) in
/-- A snapshot is the lines of what is shown, and counts them. -/
theorem Request.snapshot_eq (x : Request κ) :
    (x.snapshot asRef jsonText toLowercase).content.toList = content asRef 0 (x.shown jsonText toLowercase) ∧
      (x.snapshot asRef jsonText toLowercase).refCount = (x.shown jsonText toLowercase).length := by
  unfold Request.snapshot playwright Request.shown
  dsimp only
  split
  next none =>
    rw [none]
    exact ⟨rfl, rfl⟩
  next =>
    rw [foldl_content]
    simp

theorem terminated_content (refCount : Nat) (shown : List (NodeTexts κ)) :
    Terminated '\n' (content asRef refCount shown) := by
  induction shown generalizing refCount with
  | nil => exact .inl rfl
  | cons texts rest ih =>
    right
    rcases ih (refCount + 1) with empty | ⟨before, split⟩
    · exact ⟨texts.line asRef (refCount + 1), by rw [content, empty]⟩
    · exact ⟨texts.line asRef (refCount + 1) ++ '\n' :: before, by rw [content, split]; simp⟩

variable (asRef) in
/-- The names of properties are an enumeration of words. -/
structure PropertyNames : Prop where
  nonempty : Nonempty κ
  injective : Function.Injective asRef
  letters (key : κ) : ∀ c ∈ (asRef key).toList, c.isAlpha = true
  apart (key : κ) : asRef key ≠ "ref" ∧ asRef key ≠ "value"

theorem PropertyNames.notMem (names : PropertyNames asRef) (key : κ) {c : Char} (other : c.isAlpha = false) :
    c ∉ (asRef key).toList := by
  intro inside
  rw [names.letters key c inside] at other
  cases other

/-- No line break is written as it is. -/
def NodeTexts.Flat (texts : NodeTexts κ) : Prop :=
  '\n' ∉ texts.role.toList ∧ ∀ property ∈ texts.properties, '\n' ∉ property.2.toList

theorem newline_mem_bracket (names : PropertyNames asRef) (key : κ) (text : String) :
    '\n' ∈ bracket (asRef key) text ↔ '\n' ∈ text.toList := by
  have word := names.notMem key (c := '\n') (by decide)
  unfold bracket
  split
  next empty => simp [empty, word]
  next => simp [word]

theorem newline_mem_brackets (names : PropertyNames asRef) (properties : List (κ × String)) :
    '\n' ∈ brackets asRef properties ↔ ∃ property ∈ properties, '\n' ∈ property.2.toList := by
  induction properties with
  | nil => simp [brackets]
  | cons property rest ih => simp [brackets, ih, newline_mem_bracket names]

theorem newline_notMem_valueBracket (text : String) : '\n' ∉ valueBracket text := by
  unfold valueBracket
  split
  next => simp
  next => simp [newline_notMem_escapeName]

theorem notMem_axReference (n : Nat) {c : Char} (other : c.isAlphanum = false) : c ∉ axReference n := by
  intro inside
  rcases List.mem_cons.mp inside with rfl | digit
  · cases other
  · rw [show (toString n).toList = Nat.toDigits 10 n by simp] at digit
    have digital := Nat.isDigit_of_mem_toDigits (by decide) (by decide) digit
    simp [Char.isAlphanum, digital] at other

theorem newline_notMem_line (names : PropertyNames asRef) (refCount : Nat) (texts : NodeTexts κ) :
    '\n' ∉ texts.line asRef refCount ↔ texts.Flat := by
  simp [NodeTexts.line, NodeTexts.Flat, newline_notMem_escapeName,
    notMem_axReference (c := '\n') _ (by decide),
    newline_notMem_valueBracket, newline_mem_brackets names]

/-- There is a line for each node, and one more for each line break that is written as it is. -/
theorem count_content (names : PropertyNames asRef) (refCount : Nat) (shown : List (NodeTexts κ)) :
    shown.length ≤ (content asRef refCount shown).count '\n' ∧
      ((content asRef refCount shown).count '\n' = shown.length ↔ ∀ texts ∈ shown, texts.Flat) := by
  induction shown generalizing refCount with
  | nil => simp [content]
  | cons texts rest ih =>
    obtain ⟨least, exactly⟩ := ih (refCount + 1)
    have flat := newline_notMem_line names (refCount + 1) texts
    rw [← List.count_eq_zero] at flat
    simp only [content, List.count_append, List.count_cons_self, List.length_cons, List.forall_mem_cons]
    refine ⟨by omega, ?_⟩
    rw [← flat, ← exactly]
    omega

/-- A snapshot of kept nodes has a line for each exactly if no line break is written as it is. -/
theorem Request.lines_iff (names : PropertyNames asRef) (x : Request κ) :
    (segments '\n' (x.snapshot asRef jsonText toLowercase).content.toList).length =
        (x.snapshot asRef jsonText toLowercase).refCount ↔
      ∀ texts ∈ x.shown jsonText toLowercase, texts.Flat := by
  obtain ⟨written, counted⟩ := x.snapshot_eq asRef jsonText toLowercase
  rw [written, counted, length_segments (terminated_content 0 _)]
  exact (count_content names 0 _).2

/-! ### References -/

/-- What opens a reference. -/
def opening : List Char := "[ref=".toList

/-- A role that can be written as it is. -/
structure PlainRole (role : String) : Prop where
  flat : '\n' ∉ role.toList
  unquoted : '"' ∉ role.toList
  unmarked : ¬ opening <:+: role.toList

variable (asRef) in
/-- A text of a property that can be written as it is: it does not end a bracket to start another. -/
structure PlainProperty (text : String) : Prop where
  flat : '\n' ∉ text.toList
  unquoted : '"' ∉ text.toList
  unmarked : ¬ opening <:+: text.toList
  whole (c : Char) (key : κ) : ¬ c :: ("] [".toList ++ (asRef key).toList) <:+: text.toList

variable (asRef) in
structure NodeTexts.Plain (texts : NodeTexts κ) : Prop where
  role : PlainRole texts.role
  properties : ∀ property ∈ texts.properties, PlainProperty asRef property.2

theorem NodeTexts.Plain.flat {texts : NodeTexts κ} (plain : texts.Plain asRef) : texts.Flat :=
  ⟨plain.role.flat, fun property member => (plain.properties property member).flat⟩

theorem outside_brackets (names : PropertyNames asRef) {properties : List (κ × String)}
    (plain : ∀ property ∈ properties, '"' ∉ property.2.toList) (rest : List Char) :
    outside false (brackets asRef properties ++ rest) = brackets asRef properties ++ outside false rest := by
  apply outside_plain
  induction properties with
  | nil => simp [brackets]
  | cons property more ih =>
    have word := names.notMem property.1 (c := '"') (by decide)
    have text := plain property List.mem_cons_self
    have here : '"' ∉ bracket (asRef property.1) property.2 := by
      unfold bracket
      split <;> simp [word, text]
    simp [brackets, here, ih fun other member => plain other (List.mem_cons_of_mem _ member)]

/-- What is left of a value outside of its quotation marks. -/
def valueFrame (text : String) : List Char := if text = "" then [] else " [value=\"\"]".toList

theorem outside_valueBracket (text : String) : outside false (valueBracket text) = valueFrame text := by
  unfold valueBracket valueFrame
  split
  next => rfl
  next =>
    rw [show " [value=\"".toList = " [value=".toList ++ ['"'] from rfl, List.append_assoc,
      List.singleton_append, show "\"]".toList = '"' :: [']'] from rfl, outside_plain (by decide),
      outside_quoted (escaped_escapeName text)]
    rfl

theorem markers_skip (front : List Char) (absent : '[' ∉ front) (back : List Char) :
    markers opening ']' (front ++ back) = markers opening ']' back := markers_append_of_notMem absent back

theorem not_prefix_key (names : PropertyNames asRef) (key : κ) {c : Char} (other : c.isAlpha = false)
    (rest : List Char) :
    ¬ opening <+: '[' :: ((asRef key).toList ++ c :: rest) := by
  intro starts
  have reference : ['r', 'e', 'f'] ++ ['='] <+: (asRef key).toList ++ c :: rest :=
    (List.cons_prefix_cons.mp starts).2
  obtain ⟨back, same⟩ := reference
  rw [List.append_assoc, List.singleton_append] at same
  have word := (split_at_word (forall_of_all (by decide)) (names.letters key) (by decide) other same).1
  exact (names.apart key).1 (String.toList_inj.mp word.symm)

theorem markers_bracket (names : PropertyNames asRef) (key : κ) {text : String}
    (unmarked : ¬ opening <:+: text.toList) (rest : List Char) :
    markers opening ']' (bracket (asRef key) text ++ rest) = markers opening ']' rest := by
  have word := names.notMem key (c := '[') (by decide)
  unfold bracket
  split
  next =>
    rw [List.cons_append, List.append_assoc, List.singleton_append,
      markers_cons (not_prefix_key names key (by decide) rest), markers_skip _ word]
    exact markers_skip [']'] (by decide) rest
  next =>
    rw [List.cons_append, List.append_assoc, List.cons_append, List.append_assoc, List.singleton_append,
      markers_cons (not_prefix_key names key (by decide) _), markers_skip _ word]
    calc markers opening ']' ('=' :: (text.toList ++ ']' :: rest))
        = markers opening ']' (text.toList ++ ']' :: rest) := markers_skip ['='] (by decide) _
      _ = markers opening ']' (']' :: rest) := markers_append unmarked (by decide)
      _ = markers opening ']' rest := markers_skip [']'] (by decide) rest

theorem markers_brackets (names : PropertyNames asRef) {properties : List (κ × String)}
    (plain : ∀ property ∈ properties, ¬ opening <:+: property.2.toList) (rest : List Char) :
    markers opening ']' (brackets asRef properties ++ rest) = markers opening ']' rest := by
  induction properties with
  | nil => rfl
  | cons property more ih =>
    rw [brackets_cons]
    calc markers opening ']' (' ' :: (bracket (asRef property.1) property.2 ++ (brackets asRef more ++ rest)))
        = markers opening ']' (bracket (asRef property.1) property.2 ++ (brackets asRef more ++ rest)) :=
          markers_skip [' '] (by decide) _
      _ = markers opening ']' (brackets asRef more ++ rest) :=
          markers_bracket names property.1 (plain property List.mem_cons_self) _
      _ = markers opening ']' rest := ih fun other member => plain other (List.mem_cons_of_mem _ member)

theorem markers_valueFrame (text : String) : markers opening ']' (valueFrame text) = [] := by
  unfold valueFrame
  split
  next => rfl
  next => decide

theorem outside_line (names : PropertyNames asRef) (refCount : Nat) {texts : NodeTexts κ}
    (role : '"' ∉ texts.role.toList) (properties : ∀ property ∈ texts.properties, '"' ∉ property.2.toList) :
    outside false (texts.line asRef refCount) =
      "- ".toList ++ (texts.role.toList ++ (" \"\" ".toList ++ (opening ++ (axReference refCount ++ (']' ::
        (brackets asRef texts.properties ++ valueFrame texts.value)))))) := by
  have front : '"' ∉ "- ".toList ++ (texts.role.toList ++ [' ']) := by simp [role]
  have reference : '"' ∉ " [ref=".toList ++ (axReference refCount ++ [']']) := by
    simp [notMem_axReference (c := '"') _ (by decide)]
  have parts : texts.line asRef refCount = ("- ".toList ++ (texts.role.toList ++ [' '])) ++ ('"' ::
      (escapeName texts.name ++ '"' :: ((" [ref=".toList ++ (axReference refCount ++ [']'])) ++
        (brackets asRef texts.properties ++ valueBracket texts.value)))) := by
    simp [NodeTexts.line]
  rw [parts, outside_plain front, outside_quoted (escaped_escapeName texts.name), outside_plain reference,
    outside_brackets names properties, outside_valueBracket]
  simp [opening]

/-- Outside of its quotation marks a line has its reference and no other. -/
theorem markers_line (names : PropertyNames asRef) (refCount : Nat) {texts : NodeTexts κ}
    (plain : texts.Plain asRef) :
    markers opening ']' (outside false (texts.line asRef refCount)) = [axReference refCount] := by
  have flat : ']' ∉ ['r', 'e', 'f', '='] ++ axReference refCount := by
    simp [notMem_axReference (c := ']') _ (by decide)]
  have absent : ¬ '[' :: ['r', 'e', 'f', '='] <:+: ['r', 'e', 'f', '='] ++ axReference refCount := by
    intro inside
    have bracket := inside.subset List.mem_cons_self
    simp [notMem_axReference (c := '[') _ (by decide)] at bracket
  have unquoted (property : κ × String) (member : property ∈ texts.properties) :=
    (plain.properties property member).unquoted
  rw [outside_line names refCount plain.role.unquoted unquoted, markers_skip "- ".toList (by decide)]
  calc markers opening ']' (texts.role.toList ++ (" \"\" ".toList ++ (opening ++ (axReference refCount ++
        (']' :: (brackets asRef texts.properties ++ valueFrame texts.value))))))
      = markers opening ']' (" \"\" ".toList ++ (opening ++ (axReference refCount ++ (']' ::
        (brackets asRef texts.properties ++ valueFrame texts.value))))) :=
        markers_append plain.role.unmarked (by decide)
    _ = markers opening ']' (opening ++ (axReference refCount ++ (']' ::
        (brackets asRef texts.properties ++ valueFrame texts.value)))) := markers_skip _ (by decide) _
    _ = axReference refCount :: markers opening ']' (']' ::
        (brackets asRef texts.properties ++ valueFrame texts.value)) := markers_found flat absent _
    _ = [axReference refCount] := by
      congr 1
      have text (property : κ × String) (member : property ∈ texts.properties) :=
        (plain.properties property member).unmarked
      rw [← List.singleton_append, markers_skip [']'] (by decide), markers_brackets names text,
        markers_valueFrame]

end Webfang.Axtree
