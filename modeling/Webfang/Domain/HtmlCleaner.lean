import Mathlib.Data.List.Forall2
import Webfang.Library.Squeeze

/-!
# Cleaned documents

`clean_html` removes elements and attributes with a streaming rewriter, drops `javascript:` links by their raw
values, and ends with one pass over the text that makes a space of every run of white space. What the rewriter
leaves is a document of tags and texts; the pass acts on each of its parts alone.
-/
namespace Webfang.Domain.HtmlCleaner

open Library Text Squeeze

/-! ### The last pass -/

def isSpace (c : Char) : Bool := c == ' ' || c == '\t' || c == '\n' || c == '\r'

/-- The loop over the characters, with `in_ws`. -/
def normalizeWhitespace (html : List Char) : List Char := squeeze isSpace false html

/-- No space, line break or tab stands at the end. -/
def Ends (text : List Char) : Prop := ∀ c ∈ text.getLast?, isSpace c = false

/-- The text is not empty and starts with another character than white space. -/
def Starts (text : List Char) : Prop := ∃ c rest, text = c :: rest ∧ isSpace c = false

def Solid (text : List Char) : Prop := ∀ c ∈ text, isSpace c = false

def SingleSpaced (text : List Char) : Prop :=
  (∀ c ∈ text, isSpace c = true → c = ' ') ∧ ¬ [' ', ' '] <:+: text

section Pass

variable {front back text : List Char} {inWs : Bool}

theorem normalizeWhitespace_cons {c : Char} (other : isSpace c = false) (rest : List Char) :
    normalizeWhitespace (c :: rest) = c :: normalizeWhitespace rest := by
  rw [normalizeWhitespace, squeeze_other other, normalizeWhitespace]

theorem squeeze_starts (starts : Starts text) (inWs : Bool) :
    squeeze isSpace inWs text = normalizeWhitespace text := by
  obtain ⟨c, rest, rfl, other⟩ := starts
  rw [normalizeWhitespace, squeeze_other other, squeeze_other other]

/-- A part that ends with another character is passed over alone. -/
theorem normalizeWhitespace_of_ends (ends : Ends front) (back : List Char) :
    normalizeWhitespace (front ++ back) = normalizeWhitespace front ++ normalizeWhitespace back := by
  rw [normalizeWhitespace, squeeze_append]
  cases last : front.getLast? with
  | none => rfl
  | some c =>
    rw [Option.map_some, ends c last]
    rfl

theorem normalizeWhitespace_of_starts (front : List Char) (starts : Starts back) :
    normalizeWhitespace (front ++ back) = normalizeWhitespace front ++ normalizeWhitespace back := by
  rw [normalizeWhitespace, squeeze_append, squeeze_starts starts]
  rfl

theorem squeeze_eq_self_iff (text : List Char) (inWs : Bool) :
    squeeze isSpace inWs text = text ↔
      SingleSpaced text ∧ (inWs = true → ∀ c ∈ text.head?, isSpace c = false) := by
  induction text generalizing inWs with
  | nil => simp [squeeze, SingleSpaced]
  | cons c rest ih =>
    have parts : SingleSpaced (c :: rest) ↔ (isSpace c = true → c = ' ') ∧
      (c = ' ' → ∀ d ∈ rest.head?, d ≠ ' ') ∧
        SingleSpaced rest := by
      simp only [SingleSpaced, List.forall_mem_cons, List.infix_cons_iff, not_or]
      have pair : ¬ [' ', ' '] <+: c :: rest ↔ (c = ' ' → ∀ d ∈ rest.head?, d ≠ ' ') := by
        cases rest <;> simp [List.cons_prefix_cons, eq_comm]
      rw [pair]
      tauto
    rw [squeeze, parts]
    cases space : isSpace c with
    | false =>
      have other : c ≠ ' ' := by
        rintro rfl
        cases space
      simp [ih, other, space]
    | true =>
      cases inWs with
      | true =>
        -- a space is dropped here, and the result is shorter
        simp only [if_true, List.head?_cons, Option.mem_some_iff, forall_eq', space, Bool.true_eq_false]
        refine iff_of_false (fun same => ?_) (by simp)
        have length := congrArg List.length same
        have bound : (squeeze isSpace true rest).length ≤ rest.length := length_squeeze_le rest true
        rw [List.length_cons] at length
        omega
      | false =>
        simp only [if_true, Bool.false_eq_true, if_false, List.cons.injEq, ih, false_implies, and_true,
          true_implies]
        constructor
        · rintro ⟨rfl, single, starts⟩
          refine ⟨rfl, fun _ d head same => ?_, single⟩
          subst same
          exact absurd (starts ' ' head) (by decide)
        · rintro ⟨blank, next, single⟩
          obtain rfl := blank
          refine ⟨rfl, single, fun d head => ?_⟩
          by_contra space
          rw [Bool.not_eq_false] at space
          exact next rfl d head (single.1 d (List.mem_of_mem_head? head) space)

/-- The pass leaves a text as it is exactly when its white space is single spaces. -/
theorem normalizeWhitespace_eq_self_iff : normalizeWhitespace text = text ↔ SingleSpaced text := by
  rw [normalizeWhitespace, squeeze_eq_self_iff]
  simp

end Pass

/-! ### Documents -/

/-- An attribute as it is written: the space before it, its name, the sign of equality with the space around it,
one quotation mark, and the value. -/
structure Attribute where
  gap : List Char
  name : List Char
  equals : List Char
  quote : List Char
  value : List Char
  named : Starts name ∧ Solid name
  quoted : quote = [] ∨ Starts quote ∧ Solid quote
  bare : quote = [] → Solid value
  ended : quote = [] → value = [] → Ends equals

namespace Attribute

def source (attr : Attribute) : List Char :=
  attr.gap ++ (attr.name ++ (attr.equals ++ (attr.quote ++ (attr.value ++ attr.quote))))

end Attribute

/-- A start tag, and other markup between angle brackets: end tags by their names, comments and the like. -/
inductive Tag where
  | opening (name : List Char) (named : Starts name ∧ Solid name) (attributes : List Attribute)
    (closing : List Char)
  | ending (name rest : List Char) (named : Starts name ∧ Solid name)
  | other (raw : List Char)

def Tag.source : Tag → List Char
  | .opening name _ attributes closing =>
    '<' :: (name ++ (attributes.flatMap Attribute.source ++ (closing ++ ['>'])))
  | .ending name rest _ => '<' :: '/' :: (name ++ (rest ++ ['>']))
  | .other raw => '<' :: (raw ++ ['>'])

/-- A tag and the text up to the next tag. -/
structure Piece where
  tag : Tag
  text : List Char

def Piece.source (piece : Piece) : List Char := piece.tag.source ++ piece.text

structure Document where
  lead : List Char
  pieces : List Piece

def Document.source (doc : Document) : List Char := doc.lead ++ doc.pieces.flatMap Piece.source

/-! ### The pass over a document -/

section Parts

variable {front back text : List Char}

theorem Solid.normalizeWhitespace (solid : Solid text) : normalizeWhitespace text = text :=
  squeeze_of_absent solid false

theorem Solid.ends (solid : Solid text) : Ends text := fun c last => solid c (List.mem_of_mem_getLast? last)

theorem Starts.append (starts : Starts front) (back : List Char) : Starts (front ++ back) := by
  obtain ⟨c, rest, rfl, other⟩ := starts
  exact ⟨c, rest ++ back, rfl, other⟩

theorem Ends.append (ends : Ends back) (more : back ≠ []) (front : List Char) : Ends (front ++ back) := by
  rw [Ends, List.getLast?_append_of_ne_nil _ more]
  exact ends

theorem Solid.starts (solid : Solid text) (more : text ≠ []) : Starts text := by
  cases text with
  | nil => exact absurd rfl more
  | cons c rest => exact ⟨c, rest, rfl, solid c List.mem_cons_self⟩

theorem ends_bracket (front : List Char) : Ends (front ++ ['>']) := by
  intro c last
  rw [List.getLast?_concat, Option.mem_some_iff] at last
  rw [← last]
  rfl

theorem normalizeWhitespace_ends (ends : Ends text) : Ends (normalizeWhitespace text) := by
  cases last : text.getLast? with
  | none =>
    obtain rfl := List.getLast?_eq_none_iff.mp last
    exact ends
  | some c =>
    obtain ⟨front, rfl⟩ := List.getLast?_eq_some_iff.mp last
    have other : isSpace c = false := ends c last
    rw [normalizeWhitespace_of_starts front ⟨c, [], rfl, other⟩, normalizeWhitespace_cons other]
    intro d final
    obtain rfl : c = d := by simpa [normalizeWhitespace, squeeze] using final
    exact other

end Parts

/-- The gaps and the value of an attribute after the pass. -/
def Attribute.normalized (attr : Attribute) : Attribute where
  gap := normalizeWhitespace attr.gap
  name := attr.name
  equals := normalizeWhitespace attr.equals
  quote := attr.quote
  value := normalizeWhitespace attr.value
  named := attr.named
  quoted := attr.quoted
  bare none := by
    rw [(attr.bare none).normalizeWhitespace]
    exact attr.bare none
  ended none empty := by
    refine normalizeWhitespace_ends (attr.ended none ?_)
    rwa [(attr.bare none).normalizeWhitespace] at empty

def Tag.normalized : Tag → Tag
  | .opening name named attributes closing =>
    .opening name named (attributes.map Attribute.normalized) (normalizeWhitespace closing)
  | .ending name rest named => .ending name (normalizeWhitespace rest) named
  | .other raw => .other (normalizeWhitespace raw)

def Piece.normalized (piece : Piece) : Piece := ⟨piece.tag.normalized, normalizeWhitespace piece.text⟩

def Document.normalized (doc : Document) : Document :=
  ⟨normalizeWhitespace doc.lead, doc.pieces.map Piece.normalized⟩

theorem Attribute.ends (attr : Attribute) : Ends attr.source := by
  obtain ⟨gap, name, equals, quote, value, ⟨starts, solid⟩, quoted, bare, ended⟩ := attr
  have nonempty : name ≠ [] := by
    obtain ⟨c, rest, rfl, -⟩ := starts
    exact List.cons_ne_nil c rest
  rcases quoted with rfl | ⟨starts, quoted⟩
  · by_cases empty : value = []
    · subst empty
      simp only [source, List.append_nil]
      by_cases none : equals = []
      · subst none
        rw [List.append_nil]
        exact solid.ends.append nonempty gap
      · rw [← List.append_assoc]
        exact (ended rfl rfl).append none _
    · simp only [source, List.append_nil, List.nil_append, ← List.append_assoc]
      exact (bare rfl).ends.append empty _
  · have more : quote ≠ [] := by
      obtain ⟨c, rest, rfl, -⟩ := starts
      exact List.cons_ne_nil c rest
    simp only [source, ← List.append_assoc]
    exact quoted.ends.append more _

theorem Attribute.normalizeWhitespace_source (attr : Attribute) :
    normalizeWhitespace attr.source = attr.normalized.source := by
  obtain ⟨gap, name, equals, quote, value, ⟨starts, solid⟩, quoted, bare, ended⟩ := attr
  simp only [source, normalized]
  rw [normalizeWhitespace_of_starts gap (starts.append _), normalizeWhitespace_of_ends solid.ends,
    solid.normalizeWhitespace]
  refine congrArg (normalizeWhitespace gap ++ ·) (congrArg (name ++ ·) ?_)
  rcases quoted with rfl | ⟨starts, quoted⟩
  · simp only [List.nil_append, List.append_nil]
    by_cases empty : value = []
    · subst empty
      simp [normalizeWhitespace, squeeze]
    · exact normalizeWhitespace_of_starts equals ((bare rfl).starts empty)
  · rw [normalizeWhitespace_of_starts equals (starts.append _), normalizeWhitespace_of_ends quoted.ends,
      quoted.normalizeWhitespace, normalizeWhitespace_of_starts value starts, quoted.normalizeWhitespace]

theorem normalizeWhitespace_attributes (attributes : List Attribute) (back : List Char) :
    normalizeWhitespace (attributes.flatMap Attribute.source ++ back) =
      (attributes.map Attribute.normalized).flatMap Attribute.source ++ normalizeWhitespace back := by
  induction attributes with
  | nil => rfl
  | cons attr attributes ih =>
    rw [List.flatMap_cons, List.append_assoc, normalizeWhitespace_of_ends attr.ends, ih,
      attr.normalizeWhitespace_source, List.map_cons, List.flatMap_cons, List.append_assoc]

theorem starts_bracket : Starts ['>'] := ⟨'>', [], rfl, rfl⟩

theorem Tag.normalizeWhitespace_source (tag : Tag) :
    normalizeWhitespace tag.source = tag.normalized.source := by
  have bracket : normalizeWhitespace ['>'] = ['>'] := rfl
  cases tag with
  | opening name named attributes closing =>
    rw [source, normalizeWhitespace_cons rfl, normalizeWhitespace_of_ends named.2.ends,
      named.2.normalizeWhitespace,
      normalizeWhitespace_attributes, normalizeWhitespace_of_starts closing starts_bracket, bracket]
    rfl
  | ending name rest named =>
    rw [source, normalizeWhitespace_cons rfl, normalizeWhitespace_cons rfl,
      normalizeWhitespace_of_ends named.2.ends,
      named.2.normalizeWhitespace, normalizeWhitespace_of_starts rest starts_bracket, bracket]
    rfl
  | other raw =>
    rw [source, normalizeWhitespace_cons rfl, normalizeWhitespace_of_starts raw starts_bracket, bracket]
    rfl

theorem Tag.ends (tag : Tag) : Ends tag.source := by
  cases tag with
  | opening name named attributes closing =>
    rw [source, ← List.cons_append, ← List.append_assoc, ← List.append_assoc]
    exact ends_bracket _
  | ending name rest named =>
    rw [source, ← List.cons_append, ← List.cons_append, ← List.append_assoc]
    exact ends_bracket _
  | other raw => exact ends_bracket ('<' :: raw)

theorem Tag.starts (tag : Tag) : Starts tag.source := by
  cases tag <;> exact ⟨'<', _, rfl, rfl⟩

theorem starts_pieces (piece : Piece) (pieces : List Piece) :
    Starts ((piece :: pieces).flatMap Piece.source) := by
  rw [List.flatMap_cons, Piece.source, List.append_assoc]
  exact piece.tag.starts.append _

theorem normalizeWhitespace_pieces (text : List Char) (pieces : List Piece) :
    normalizeWhitespace (text ++ pieces.flatMap Piece.source) =
      normalizeWhitespace text ++ (pieces.map Piece.normalized).flatMap Piece.source := by
  induction pieces generalizing text with
  | nil => simp
  | cons piece pieces ih =>
    rw [normalizeWhitespace_of_starts text (starts_pieces piece pieces), List.flatMap_cons, Piece.source,
      List.append_assoc, normalizeWhitespace_of_ends piece.tag.ends, ih, piece.tag.normalizeWhitespace_source,
      List.map_cons, List.flatMap_cons, ← List.append_assoc piece.tag.normalized.source]
    rfl

/-- The pass acts on each text, each value and each gap of a document alone. -/
theorem normalizeWhitespace_source (doc : Document) :
    normalizeWhitespace doc.source = doc.normalized.source :=
  normalizeWhitespace_pieces doc.lead doc.pieces

/-! ### Preformatted text -/

def Tag.attributes : Tag → List Attribute
  | .opening _ _ attributes _ => attributes
  | _ => []

/-- How many elements of the two kinds are open. -/
structure Depth where
  pre : Nat
  textarea : Nat

def Depth.step (depth : Depth) : Tag → Depth
  | .opening name _ _ _ =>
    if name.map Char.toLower = "pre".toList then { depth with pre := depth.pre + 1 }
    else if name.map Char.toLower = "textarea".toList then { depth with textarea := depth.textarea + 1 }
    else depth
  | .ending name _ _ =>
    if name.map Char.toLower = "pre".toList then { depth with pre := depth.pre - 1 }
    else if name.map Char.toLower = "textarea".toList then { depth with textarea := depth.textarea - 1 }
    else depth
  | .other _ => depth

def inside (depth : Depth) : List Piece → List (Depth × Piece)
  | [] => []
  | piece :: pieces => (depth.step piece.tag, piece) :: inside (depth.step piece.tag) pieces

def Document.placed (doc : Document) : List (Depth × Piece) := inside ⟨0, 0⟩ doc.pieces

def nonSpace (text : List Char) : List Char := text.filter fun c => !isSpace c

/-- The same piece but for the white space of a text inside `pre`. -/
def SameBut (place other : Depth × Piece) : Prop :=
  other.2.tag = place.2.tag ∧
    if 0 < place.1.pre then nonSpace other.2.text = nonSpace place.2.text else other.2.text = place.2.text

/-- The documents differ at most in the white space inside `pre`. -/
structure Respaced (doc other : Document) : Prop where
  lead : other.lead = doc.lead
  pieces : List.Forall₂ SameBut doc.placed other.placed

/-- The pass acts on each text and value alone; it keeps preformatted texts and values, and no document that is
spaced otherwise inside `pre` becomes the same text. -/
structure KeepsSpace (doc : Document) : Prop where
  output : normalizeWhitespace doc.source = doc.normalized.source
  preformatted : ∀ place ∈ doc.placed, 0 < place.1.pre ∨ 0 < place.1.textarea →
    place.2.normalized.text = place.2.text
  values : ∀ piece ∈ doc.pieces, ∀ attr ∈ piece.tag.attributes, attr.normalized.value = attr.value
  told : ∀ other, Respaced doc other → other ≠ doc →
    normalizeWhitespace other.source ≠ normalizeWhitespace doc.source

structure SparselySpaced (doc : Document) : Prop where
  pre : ∀ place ∈ doc.placed, 0 < place.1.pre → Solid place.2.text
  textarea : ∀ place ∈ doc.placed, 0 < place.1.textarea → SingleSpaced place.2.text
  values : ∀ piece ∈ doc.pieces, ∀ attr ∈ piece.tag.attributes, SingleSpaced attr.value

section Told

variable {text other : List Char}

theorem nonSpace_normalizeWhitespace (text : List Char) :
    nonSpace (normalizeWhitespace text) = nonSpace text :=
  filter_squeeze rfl text false

theorem nonSpace_of_solid (solid : Solid text) : nonSpace text = text :=
  List.filter_eq_self.mpr fun c member => by rw [solid c member]; rfl

theorem solid_of_normalizeWhitespace (solid : Solid (normalizeWhitespace text)) : Solid text := by
  induction text with
  | nil => exact solid
  | cons c rest ih =>
    cases space : isSpace c with
    | true =>
      rw [normalizeWhitespace, squeeze_blank space] at solid
      exact absurd (solid ' ' List.mem_cons_self) (by decide)
    | false =>
      rw [normalizeWhitespace_cons space] at solid
      exact List.forall_mem_cons.mpr ⟨space, ih fun d member => solid d (.tail _ member)⟩

/-- Two texts with the same characters are told apart by what follows them. -/
theorem append_inj_of_nonSpace {back back' : List Char} (same : nonSpace text = nonSpace other)
    (whole : text ++ back = other ++ back') (starts : Starts back) (starts' : Starts back') :
    text = other ∧ back = back' := by
  -- what one text has more begins with a character that is no space, and the other has none left
  have none : ∀ {front more rest : List Char}, nonSpace front = nonSpace (front ++ more) →
      Starts (more ++ rest) → more = [] := by
    intro front more rest same starts
    cases more with
    | nil => rfl
    | cons c more =>
      obtain ⟨d, rest', first, space⟩ := starts
      rw [List.cons_append, List.cons.injEq] at first
      rw [← first.1] at space
      rw [nonSpace, nonSpace, List.filter_append, List.filter_cons_of_pos (by simp [space])] at same
      simpa using congrArg List.length same
  rcases List.append_eq_append_iff.mp whole with ⟨more, rfl, rfl⟩ | ⟨more, rfl, rfl⟩
  · obtain rfl := none same starts
    simp
  · obtain rfl := none same.symm starts'
    simp

end Told

theorem normalizeWhitespace_inj_pieces {depth depth' : Depth} {pieces pieces' : List Piece}
    {text text' : List Char}
    (same : List.Forall₂ SameBut (inside depth pieces) (inside depth' pieces'))
    (alike : nonSpace text = nonSpace text')
    (whole : normalizeWhitespace text ++ (pieces.map Piece.normalized).flatMap Piece.source =
      normalizeWhitespace text' ++ (pieces'.map Piece.normalized).flatMap Piece.source) :
    normalizeWhitespace text = normalizeWhitespace text' ∧
      List.Forall₂ (fun place other => normalizeWhitespace place.2.text = normalizeWhitespace other.2.text)
        (inside depth pieces) (inside depth' pieces') := by
  induction pieces generalizing depth depth' pieces' text text' with
  | nil =>
    cases pieces' with
    | nil => exact ⟨by simpa using whole, .nil⟩
    | cons piece' pieces' => cases same
  | cons piece pieces ih =>
    cases pieces' with
    | nil => cases same
    | cons piece' pieces' =>
      obtain ⟨⟨tags, texts⟩, later⟩ := List.forall₂_cons.mp same
      -- inside `pre` the texts have the same characters, elsewhere they are the same
      have characters : nonSpace piece.text = nonSpace piece'.text := by
        split at texts
        · exact texts.symm
        · rw [texts]
      have equal : nonSpace (normalizeWhitespace text) = nonSpace (normalizeWhitespace text') := by
        rw [nonSpace_normalizeWhitespace, nonSpace_normalizeWhitespace, alike]
      -- a tag begins with `<`, so the texts in front of it are told apart
      obtain ⟨front, back⟩ := append_inj_of_nonSpace equal whole (starts_pieces ..) (starts_pieces ..)
      rw [List.map_cons, List.map_cons, List.flatMap_cons, List.flatMap_cons, Piece.source, Piece.source,
        List.append_assoc, List.append_assoc] at back
      have sametags : piece'.normalized.tag = piece.normalized.tag := congrArg Tag.normalized tags
      rw [sametags, List.append_cancel_left_eq] at back
      obtain ⟨here, rest⟩ := ih later characters back
      exact ⟨front, .cons here rest⟩

theorem pieces_eq_inside (depth : Depth) (pieces : List Piece) :
    pieces = (inside depth pieces).map Prod.snd := by
  induction pieces generalizing depth with
  | nil => rfl
  | cons piece pieces ih => rw [inside, List.map_cons, ← ih]

theorem map_snd_eq {places others : List (Depth × Piece)} (same : List.Forall₂ SameBut places others)
    (texts : List.Forall₂
      (fun place other => normalizeWhitespace place.2.text = normalizeWhitespace other.2.text)
      places others) (pre : ∀ place ∈ places, 0 < place.1.pre → Solid place.2.text) :
    places.map Prod.snd = others.map Prod.snd := by
  induction same with
  | nil => rfl
  | @cons place other places others here _ ih =>
    obtain ⟨text, later⟩ := List.forall₂_cons.mp texts
    obtain ⟨solid, pre⟩ := List.forall_mem_cons.mp pre
    rw [List.map_cons, List.map_cons, ih later pre]
    obtain ⟨depth, tag, front⟩ := place
    obtain ⟨depth', tag', back⟩ := other
    obtain ⟨rfl, spaced⟩ := here
    dsimp only at solid text spaced
    split at spaced
    next formatted =>
      rw [(solid formatted).normalizeWhitespace] at text
      have solid' : Solid back := by
        refine solid_of_normalizeWhitespace ?_
        rw [← text]
        exact solid formatted
      rw [nonSpace_of_solid (solid formatted), nonSpace_of_solid solid'] at spaced
      rw [spaced]
    next => rw [spaced]

/-- Without white space inside `pre` a document is told from all that are spaced otherwise there. -/
theorem eq_of_normalizeWhitespace_eq {doc other : Document}
    (pre : ∀ place ∈ doc.placed, 0 < place.1.pre → Solid place.2.text) (same : Respaced doc other)
    (whole : normalizeWhitespace other.source = normalizeWhitespace doc.source) : other = doc := by
  obtain ⟨lead, pieces⟩ := doc
  obtain ⟨lead', pieces'⟩ := other
  obtain ⟨rfl, alike⟩ := same
  rw [normalizeWhitespace_source, normalizeWhitespace_source] at whole
  have texts := (normalizeWhitespace_inj_pieces alike rfl whole.symm).2
  have equal := map_snd_eq alike texts pre
  rw [Document.placed, Document.placed, ← pieces_eq_inside, ← pieces_eq_inside] at equal
  exact congrArg (Document.mk lead') equal.symm

/-! ### Other spacing -/

/-- Another character of white space. -/
def respace (c : Char) : Char := if c = '\n' then ' ' else if isSpace c then '\n' else c

theorem isSpace_respace (c : Char) : isSpace (respace c) = isSpace c := by
  rw [respace]
  split
  next same => rw [same]; rfl
  next =>
    split
    next space => rw [space]; rfl
    next => rfl

theorem respace_of_not_isSpace {c : Char} (other : isSpace c = false) : respace c = c := by
  have distinct : c ≠ '\n' := by
    rintro rfl
    cases other
  rw [respace, if_neg distinct, if_neg (by simp [other])]

theorem respace_ne {c : Char} (space : isSpace c = true) : respace c ≠ c := by
  rw [respace]
  split
  next same => rw [same]; decide
  next other => exact fun same => other same.symm

theorem normalizeWhitespace_respace (text : List Char) :
    normalizeWhitespace (text.map respace) = normalizeWhitespace text :=
  squeeze_map isSpace_respace (fun _ other => respace_of_not_isSpace other) text false

theorem nonSpace_respace (text : List Char) : nonSpace (text.map respace) = nonSpace text := by
  induction text with
  | nil => rfl
  | cons c rest ih =>
    rw [nonSpace, nonSpace] at ih
    rw [nonSpace, nonSpace, List.map_cons]
    cases space : isSpace c with
    | true =>
      rw [List.filter_cons_of_neg (by simp [isSpace_respace, space]),
        List.filter_cons_of_neg (by simp [space]), ih]
    | false =>
      rw [respace_of_not_isSpace space, List.filter_cons_of_pos (by simp [space]),
        List.filter_cons_of_pos (by simp [space]), ih]

/-- The piece with other white space, inside `pre`. -/
def respaced (place : Depth × Piece) : Piece :=
  if 0 < place.1.pre then { place.2 with text := place.2.text.map respace } else place.2

theorem respaced_tag (place : Depth × Piece) : (respaced place).tag = place.2.tag := by
  rw [respaced]
  split <;> rfl

theorem respaced_normalized (place : Depth × Piece) : (respaced place).normalized = place.2.normalized := by
  rw [respaced]
  split
  · rw [Piece.normalized, normalizeWhitespace_respace]
    rfl
  · rfl

theorem inside_respaced (depth : Depth) (pieces : List Piece) :
    inside depth ((inside depth pieces).map respaced) =
      (inside depth pieces).map fun place => (place.1, respaced place) := by
  induction pieces generalizing depth with
  | nil => rfl
  | cons piece pieces ih => rw [inside, List.map_cons, inside, respaced_tag, ih, List.map_cons]

def Document.respaced (doc : Document) : Document := ⟨doc.lead, doc.placed.map HtmlCleaner.respaced⟩

theorem Document.respaced_respaced (doc : Document) : Respaced doc doc.respaced := by
  refine ⟨rfl, ?_⟩
  rw [Document.respaced, Document.placed, Document.placed, inside_respaced, List.forall₂_map_right_iff]
  refine List.forall₂_same.mpr fun place _ => ⟨respaced_tag place, ?_⟩
  by_cases formatted : 0 < place.1.pre
  · rw [if_pos formatted, HtmlCleaner.respaced, if_pos formatted]
    exact nonSpace_respace place.2.text
  · rw [if_neg formatted, HtmlCleaner.respaced, if_neg formatted]

theorem Document.normalizeWhitespace_respaced (doc : Document) :
    normalizeWhitespace doc.respaced.source = normalizeWhitespace doc.source := by
  rw [normalizeWhitespace_source, normalizeWhitespace_source, Document.normalized, Document.normalized,
    Document.respaced, List.map_map]
  have same : (doc.placed.map (Piece.normalized ∘ HtmlCleaner.respaced)) =
      doc.pieces.map Piece.normalized := by
    conv_rhs => rw [pieces_eq_inside ⟨0, 0⟩ doc.pieces, List.map_map]
    exact List.map_congr_left fun place _ => respaced_normalized place
  rw [same]

/-- The last pass keeps the space of a document that has none inside `pre`, and single spaces in its areas and its
values; and of no other. -/
theorem keepsSpace_iff (doc : Document) : KeepsSpace doc ↔ SparselySpaced doc := by
  constructor
  · intro keeps
    refine ⟨fun place member formatted => ?_, fun place member area => ?_, fun piece member attr has => ?_⟩
    -- the document with other white space inside `pre` is cleaned to the same text
    · by_contra spaced
      simp only [Solid, not_forall, Bool.not_eq_false] at spaced
      obtain ⟨c, here, space⟩ := spaced
      refine keeps.told doc.respaced doc.respaced_respaced (fun same => ?_) doc.normalizeWhitespace_respaced
      have pieces : doc.placed.map HtmlCleaner.respaced = doc.placed.map Prod.snd :=
        (congrArg Document.pieces same).trans (pieces_eq_inside ⟨0, 0⟩ doc.pieces)
      have fixed := congrArg Piece.text (List.map_inj_left.mp pieces place member)
      rw [HtmlCleaner.respaced, if_pos formatted] at fixed
      exact respace_ne space (List.map_inj_left.mp (fixed.trans (List.map_id _).symm) c here)
    · exact normalizeWhitespace_eq_self_iff.mp (keeps.preformatted place member (.inr area))
    · exact normalizeWhitespace_eq_self_iff.mp (keeps.values piece member attr has)
  · intro sparse
    refine ⟨normalizeWhitespace_source doc, fun place member kind => ?_, fun piece member attr has => ?_,
      fun other same different whole => different (eq_of_normalizeWhitespace_eq sparse.pre same whole)⟩
    · rcases kind with formatted | area
      · exact (sparse.pre place member formatted).normalizeWhitespace
      · exact normalizeWhitespace_eq_self_iff.mpr (sparse.textarea place member area)
    · exact normalizeWhitespace_eq_self_iff.mpr (sparse.values piece member attr has)

/-! ### The handlers -/

def tagsToRemove : List String :=
  ["script", "style", "noscript", "form", "iframe", "object", "embed", "svg", "canvas", "video", "audio",
    "nav", "header", "footer", "aside"]

def selectorsToRemove : List String :=
  [".site-title", ".global-nav", ".global-nav-list", ".mobile-menu-wrapper", ".right-sidebar",
    ".right-sidebar-container", ".mobile-toc", ".sl-sidebar", ".sl-mobile-toc", ".search", ".site-search",
    ".social-icons", ".page-feedback", ".feedback", ".sl-breadcrumbs", ".pagination", "[class*='sr-only']",
    "[aria-hidden='true']", "[hidden]", ".copy-markdown-btn", ".copy-code-button", ".skip-link"]

def preservedAttrs : List String := ["href", "src", "alt", "id", "class", "dir", "code"]

def Attribute.lowerName (attr : Attribute) : List Char := attr.name.map Char.toLower

def Attribute.isNamed (name : List Char) (attr : Attribute) : Bool := attr.lowerName == name

/-- `el.get_attribute(name)`: the first of that name. -/
def getAttribute (name : List Char) (attributes : List Attribute) : Option (List Char) :=
  (attributes.find? (Attribute.isNamed name)).map Attribute.value

/-- `el.remove_attribute(name)`: the first of that name. -/
def removeAttribute (name : List Char) (attributes : List Attribute) : List Attribute :=
  attributes.eraseP (Attribute.isNamed name)

def javascript : List Char := "javascript".toList

/-- The text before the first colon, in lower case, is `javascript`. -/
def hasJavascriptScheme (text : List Char) : Bool :=
  text.contains ':' && ((text.takeWhile (· ≠ ':')).map Char.toLower == javascript)

/-- The test of the handler, on the raw value. -/
def isFiltered (value : List Char) : Bool := hasJavascriptScheme (value.dropWhile isWhitespace)

/-- One round of the handler's loop over the names. -/
def handleName (attributes : List Attribute) (name : List Char) : List Attribute :=
  if !(preservedAttrs.map String.toList).contains name then removeAttribute name attributes
  else if name = "href".toList ∨ name = "src".toList then
    match getAttribute name attributes with
    | some value => if isFiltered value then removeAttribute name attributes else attributes
    | none => attributes
  else attributes

def cleanAttributes (attributes : List Attribute) : List Attribute :=
  (attributes.map Attribute.lowerName).foldl handleName attributes

/-- A tag that loses attributes is written anew, with one space before each that is left. -/
def Tag.cleaned : Tag → Tag
  | .opening name named attributes closing =>
    let left := cleanAttributes attributes
    if left.length = attributes.length then .opening name named attributes closing
    else
      .opening name named (left.map fun attr => { attr with gap := [' '] })
        (if closing.getLast? = some '/' then if left = [] then ['/'] else [' ', '/'] else [])
  | tag => tag

/-- The rewriter takes out the elements that one of the selectors matches; what it leaves is cut into tags and
texts. -/
structure Rewriter where
  rewrite : (selectors : List String) → (html : List Char) → Except String Document
  rewrite_nil : ∀ selectors, rewrite selectors [] = .ok ⟨[], []⟩

def cleanHtml (rewriter : Rewriter) (html : List Char) : List Char :=
  if html = [] then []
  else
    match rewriter.rewrite (tagsToRemove ++ selectorsToRemove) html with
    | .ok doc =>
      let pieces := doc.pieces.map fun piece => { piece with tag := piece.tag.cleaned }
      normalizeWhitespace (Document.source ⟨doc.lead, pieces⟩)
    | .error _ => html

def Document.cleaned (doc : Document) : Document :=
  Document.normalized ⟨doc.lead, doc.pieces.map fun piece => { piece with tag := piece.tag.cleaned }⟩

theorem cleanHtml_eq {rewriter : Rewriter} {html : List Char} {doc : Document}
    (left : rewriter.rewrite (tagsToRemove ++ selectorsToRemove) html = .ok doc) :
    cleanHtml rewriter html = doc.cleaned.source := by
  by_cases empty : html = []
  · subst empty
    rw [rewriter.rewrite_nil] at left
    cases left
    rfl
  · rw [cleanHtml, if_neg empty, left]
    exact normalizeWhitespace_source _

/-! ### The values that are left -/

def valuesOf (name : List Char) (attributes : List Attribute) : List (List Char) :=
  (attributes.filter (Attribute.isNamed name)).map Attribute.value

/-- The first value of a name that the handler does not filter. -/
def survivor (name : List Char) (attributes : List Attribute) : Option (List Char) :=
  (valuesOf name attributes).find? fun value => !isFiltered value

def dropFiltered : List (List Char) → List (List Char)
  | [] => []
  | value :: rest => if isFiltered value then rest else value :: rest

section Values

variable {name other : List Char} {attributes : List Attribute}

theorem getAttribute_eq (name : List Char) (attributes : List Attribute) :
    getAttribute name attributes = (valuesOf name attributes).head? := by
  rw [getAttribute, valuesOf, List.head?_map, List.head?_filter]

theorem valuesOf_removeAttribute (name other : List Char) (attributes : List Attribute) :
    valuesOf name (removeAttribute other attributes) =
      if other = name then (valuesOf name attributes).tail else valuesOf name attributes := by
  induction attributes with
  | nil => split <;> rfl
  | cons attr attributes ih =>
    rw [removeAttribute, valuesOf] at ih
    by_cases here : attr.isNamed other = true
    · rw [removeAttribute, List.eraseP_cons_of_pos here]
      rw [Attribute.isNamed, beq_iff_eq] at here
      subst here
      split
      next same =>
        rw [valuesOf, valuesOf, List.filter_cons_of_pos (by simp [Attribute.isNamed, same])]
        rfl
      next different =>
        rw [valuesOf, valuesOf, List.filter_cons_of_neg (by simp [Attribute.isNamed, different])]
    · rw [removeAttribute, List.eraseP_cons_of_neg here, valuesOf, valuesOf]
      by_cases named : attr.isNamed name = true
      · have different : other ≠ name := by
          rintro rfl
          exact here named
        rw [if_neg different] at ih ⊢
        rw [List.filter_cons_of_pos named, List.filter_cons_of_pos named, List.map_cons, List.map_cons, ih,
          valuesOf]
      · rw [List.filter_cons_of_neg named, List.filter_cons_of_neg named]
        exact ih

/-- A round drops the first value of its own name, if that is filtered. -/
theorem valuesOf_handleName (link : name = "href".toList ∨ name = "src".toList) :
    valuesOf name (handleName attributes other) =
      if other = name then dropFiltered (valuesOf name attributes) else valuesOf name attributes := by
  have kept : (preservedAttrs.map String.toList).contains name = true := by
    rcases link with rfl | rfl <;> decide
  rw [handleName]
  by_cases same : other = name
  · subst same
    rw [kept, if_neg (by simp), if_pos link, if_pos rfl, getAttribute_eq]
    cases values : valuesOf other attributes with
    | nil => exact values
    | cons value rest =>
      rw [List.head?_cons, dropFiltered]
      dsimp only
      split
      · rw [valuesOf_removeAttribute, if_pos rfl, values]
        rfl
      · exact values
  · rw [if_neg same]
    have untouched : valuesOf name (removeAttribute other attributes) = valuesOf name attributes := by
      rw [valuesOf_removeAttribute, if_neg same]
    split
    · exact untouched
    · split
      · split
        · split
          · exact untouched
          · rfl
        · rfl
      · rfl

theorem valuesOf_foldl (link : name = "href".toList ∨ name = "src".toList) (names : List (List Char)) :
    valuesOf name (names.foldl handleName attributes) =
      dropFiltered^[names.count name] (valuesOf name attributes) := by
  induction names generalizing attributes with
  | nil => rfl
  | cons other names ih =>
    rw [List.foldl_cons, ih, valuesOf_handleName link]
    by_cases same : other = name
    · rw [if_pos same, same, List.count_cons_self, Function.iterate_succ_apply]
    · rw [if_neg same, List.count_cons_of_ne same]

theorem head?_iterate_dropFiltered {values : List (List Char)} {n : Nat} (enough : values.length ≤ n) :
    (dropFiltered^[n] values).head? = values.find? fun value => !isFiltered value := by
  induction n generalizing values with
  | zero =>
    obtain rfl := List.length_eq_zero_iff.mp (Nat.le_zero.mp enough)
    rfl
  | succ n ih =>
    rw [Function.iterate_succ_apply]
    cases values with
    | nil => exact ih (Nat.zero_le n)
    | cons value rest =>
      rw [List.length_cons] at enough
      rw [dropFiltered]
      cases filtered : isFiltered value with
      | true =>
        rw [if_pos rfl, ih (by omega), List.find?_cons_of_neg (by simp [filtered])]
      | false =>
        have fixed : dropFiltered (value :: rest) = value :: rest := by
          rw [dropFiltered, filtered]
          rfl
        rw [if_neg Bool.false_ne_true, Function.iterate_fixed fixed,
          List.find?_cons_of_pos (by simp [filtered])]
        rfl

theorem getAttribute_cleanAttributes (link : name = "href".toList ∨ name = "src".toList) :
    getAttribute name (cleanAttributes attributes) = survivor name attributes := by
  rw [getAttribute_eq, cleanAttributes, valuesOf_foldl link, survivor]
  refine head?_iterate_dropFiltered (Nat.le_of_eq ?_)
  rw [valuesOf, List.length_map, List.count, List.countP_map, List.countP_eq_length_filter]
  rfl

theorem cleanAttributes_sublist (attributes : List Attribute) :
    (cleanAttributes attributes).Sublist attributes := by
  have step : ∀ (attributes : List Attribute) name, (handleName attributes name).Sublist attributes := by
    intro attributes name
    have removed : (removeAttribute name attributes).Sublist attributes := List.eraseP_sublist
    rw [handleName]
    split
    · exact removed
    · split
      · split
        · split
          · exact removed
          · exact List.Sublist.refl _
        · exact List.Sublist.refl _
      · exact List.Sublist.refl _
  -- the handler goes over the names it had before it removed any
  have run : ∀ (names : List (List Char)) (left : List Attribute), left.Sublist attributes →
      (names.foldl handleName left).Sublist attributes := by
    intro names
    induction names with
    | nil => exact fun left below => below
    | cons name names ih => exact fun left below => ih _ ((step left name).trans below)
  exact run _ attributes (List.Sublist.refl _)

theorem getAttribute_map (change : Attribute → Attribute) (edit : List Char → List Char)
    (names : ∀ attr, (change attr).name = attr.name) (values : ∀ attr, (change attr).value = edit attr.value)
    (name : List Char) (attributes : List Attribute) :
    getAttribute name (attributes.map change) = (getAttribute name attributes).map edit := by
  have named : Attribute.isNamed name ∘ change = Attribute.isNamed name := by
    funext attr
    rw [Function.comp_apply, Attribute.isNamed, Attribute.isNamed, Attribute.lowerName, names,
      Attribute.lowerName]
  rw [getAttribute, getAttribute, List.find?_map, named, Option.map_map, Option.map_map]
  congr 1
  funext attr
  exact values attr

/-- What a browser takes for the value of a link in the text. -/
theorem getAttribute_cleaned (link : name = "href".toList ∨ name = "src".toList) (tag : Tag) :
    getAttribute name tag.cleaned.normalized.attributes =
      (survivor name tag.attributes).map normalizeWhitespace := by
  cases tag with
  | opening tagName named attributes closing =>
    rw [← getAttribute_cleanAttributes link, Tag.cleaned]
    split
    next same =>
      have all : cleanAttributes attributes = attributes :=
        (cleanAttributes_sublist attributes).eq_of_length same
      rw [Tag.normalized, Tag.attributes, Tag.attributes, all]
      exact getAttribute_map Attribute.normalized normalizeWhitespace (fun _ => rfl) (fun _ => rfl) name
        attributes
    next =>
      rw [Tag.normalized, Tag.attributes, Tag.attributes, List.map_map]
      -- the rewriter writes the tag anew, with one space before each attribute
      exact getAttribute_map (Attribute.normalized ∘ fun attr => { attr with gap := [' '] })
        normalizeWhitespace (fun _ => rfl) (fun _ => rfl) name _
  | ending tagName rest named => rfl
  | other raw => rfl

end Values

/-! ### Links as a browser reads them -/

/-- References to characters in the value of an attribute begin with `&`. -/
structure CharacterReferences where
  decode : List Char → List Char
  decode_nil : decode [] = []
  decode_cons : ∀ c rest, c ≠ '&' → decode (c :: rest) = c :: decode rest

def isC0OrSpace (c : Char) : Bool := c.toNat ≤ 0x20

/-- Before a URL is parsed, its C0 controls and spaces in front go, and its tabs and line breaks everywhere. -/
def preprocessed (url : List Char) : List Char :=
  (url.dropWhile isC0OrSpace).filter fun c => !(c == '\t' || c == '\n' || c == '\r')

def readsAsJavascript (refs : CharacterReferences) (value : List Char) : Bool :=
  hasJavascriptScheme (preprocessed (refs.decode value))

/-- The scheme `javascript` stands behind a control character that is no white space. -/
def ledByControl (value : List Char) : Bool :=
  let front := value.takeWhile (· ≠ ':')
  value.contains ':' && (front.dropWhile isC0OrSpace).map Char.toLower == javascript &&
    (front.takeWhile isC0OrSpace).any fun c => !isWhitespace c

/-- A value that is not filtered and still a link to a script: behind a control character, or by a reference
before its first colon. -/
def Disguised (refs : CharacterReferences) (value : List Char) : Prop :=
  ledByControl value = true ∨
    '&' ∈ value.takeWhile (· ≠ ':') ∧ readsAsJavascript refs (normalizeWhitespace value) = true

instance (refs : CharacterReferences) (value : List Char) : Decidable (Disguised refs value) :=
  inferInstanceAs (Decidable (_ ∨ _))

section Schemes

variable {refs : CharacterReferences} {front text value : List Char}

theorem isC0OrSpace_of_isSpace {c : Char} (space : isSpace c = true) : isC0OrSpace c = true := by
  simp only [isSpace, Bool.or_eq_true, beq_iff_eq] at space
  rcases space with ((rfl | rfl) | rfl) | rfl <;> decide

theorem letter_of_mem {c : Char} (scheme : text.map Char.toLower = javascript) (member : c ∈ text) :
    0x20 < c.toNat ∧ c ≠ '&' ∧ isWhitespace c = false := by
  have letter : c.toLower ∈ javascript := by
    rw [← scheme]
    exact List.mem_map_of_mem member
  rcases toLower_cases c with same | ⟨low, high, -⟩
  · rw [same] at letter
    have all : ∀ d ∈ javascript, 0x20 < d.toNat ∧ d ≠ '&' ∧ isWhitespace d = false :=
      forall_of_all (by decide)
    exact all c letter
  · refine ⟨by omega, fun same => ?_, ?_⟩
    · subst same
      exact absurd low (by decide)
    · simp only [isWhitespace, Bool.or_eq_false_iff, Bool.and_eq_false_iff, decide_eq_false_iff_not,
        beq_eq_false_iff_ne]
      omega

theorem solid_of_scheme (scheme : text.map Char.toLower = javascript) : Solid text := by
  intro c member
  by_contra space
  rw [Bool.not_eq_false] at space
  have blank := isC0OrSpace_of_isSpace space
  rw [isC0OrSpace, decide_eq_true_eq] at blank
  exact absurd (letter_of_mem scheme member).1 (Nat.not_lt.mpr blank)

theorem takeWhile_colon (flat : ':' ∉ front) (back : List Char) :
    (front ++ ':' :: back).takeWhile (· ≠ ':') = front := by
  have letters : ∀ c ∈ front, decide (c ≠ ':') = true :=
    fun c member => decide_eq_true fun same => flat (same ▸ member)
  rw [List.takeWhile_append_of_pos letters]
  simp

theorem hasJavascriptScheme_split (flat : ':' ∉ front) (back : List Char) :
    hasJavascriptScheme (front ++ ':' :: back) = true ↔ front.map Char.toLower = javascript := by
  rw [hasJavascriptScheme, takeWhile_colon flat]
  simp

theorem hasJavascriptScheme_of_not_mem (flat : ':' ∉ text) : hasJavascriptScheme text = false := by
  rw [hasJavascriptScheme, Bool.and_eq_false_iff]
  exact .inl (by simpa using flat)

theorem decode_append (plain : '&' ∉ front) (back : List Char) :
    refs.decode (front ++ back) = front ++ refs.decode back := by
  induction front with
  | nil => rfl
  | cons c front ih =>
    rw [List.mem_cons, not_or] at plain
    rw [List.cons_append, refs.decode_cons c _ (Ne.symm plain.1), ih plain.2, List.cons_append]

/-- The pass changes nothing before the first character that is no control and no space. -/
theorem dropWhile_squeeze (text : List Char) (inWs : Bool) :
    (squeeze isSpace inWs text).dropWhile isC0OrSpace = normalizeWhitespace (text.dropWhile isC0OrSpace) := by
  induction text generalizing inWs with
  | nil => rfl
  | cons c rest ih =>
    rw [squeeze]
    cases space : isSpace c with
    | true =>
      rw [if_pos rfl, List.dropWhile_cons_of_pos (isC0OrSpace_of_isSpace space)]
      cases inWs with
      | true => exact ih true
      | false => exact ih true
    | false =>
      rw [if_neg Bool.false_ne_true]
      cases control : isC0OrSpace c with
      | true => rw [List.dropWhile_cons_of_pos control, List.dropWhile_cons_of_pos control, ih]
      | false =>
        rw [List.dropWhile_cons_of_neg (by simp [control]), List.dropWhile_cons_of_neg (by simp [control]),
          normalizeWhitespace_cons space]
        rfl

theorem scheme_normalizeWhitespace_iff :
    (normalizeWhitespace text).map Char.toLower = javascript ↔ text.map Char.toLower = javascript := by
  constructor
  · intro scheme
    have solid : Solid text := solid_of_normalizeWhitespace (solid_of_scheme scheme)
    rwa [solid.normalizeWhitespace] at scheme
  · intro scheme
    rwa [(solid_of_scheme scheme).normalizeWhitespace]

theorem split_colon (text : List Char) :
    ':' ∉ text ∨ ∃ front back, ':' ∉ front ∧ text = front ++ ':' :: back := by
  by_cases colon : ':' ∈ text
  · obtain ⟨front, back, rfl, flat⟩ := List.eq_append_cons_of_mem colon
    exact .inr ⟨front, back, flat, rfl⟩
  · exact .inl colon

/-- Without a reference in front, the scheme is what stands behind the controls and spaces. -/
theorem readsAsJavascript_split (plain : '&' ∉ front) (flat : ':' ∉ front) (back : List Char) :
    readsAsJavascript refs (normalizeWhitespace (front ++ ':' :: back)) = true ↔
      (front.dropWhile isC0OrSpace).map Char.toLower = javascript := by
  have colon : Starts (':' :: back) := ⟨':', back, rfl, rfl⟩
  have apart : ∀ c ∈ normalizeWhitespace front, (!(c == '\t' || c == '\n' || c == '\r')) = true := by
    intro c member
    by_cases blank : c = ' '
    · subst blank
      rfl
    · have other := (mem_squeeze blank member).2
      simp only [isSpace, Bool.or_eq_false_iff] at other
      simp [other]
  have decoded : refs.decode (normalizeWhitespace (front ++ ':' :: back)) =
      normalizeWhitespace front ++ ':' :: refs.decode (normalizeWhitespace back) := by
    rw [normalizeWhitespace_of_starts front colon, normalizeWhitespace_cons rfl, decode_append,
      refs.decode_cons]
    · decide
    · exact fun member => plain (mem_squeeze (by decide) member).1
  rw [readsAsJavascript, decoded, preprocessed, dropWhile_append_stop (by decide), List.filter_append,
    List.filter_cons_of_pos (by decide), normalizeWhitespace, dropWhile_squeeze, List.filter_eq_self.mpr]
  · rw [hasJavascriptScheme_split, scheme_normalizeWhitespace_iff]
    intro member
    have inside := (mem_squeeze (by decide) member).1
    exact flat ((List.dropWhile_sublist _).subset inside)
  · intro c member
    rw [← dropWhile_squeeze front false] at member
    exact apart c ((List.dropWhile_sublist _).subset member)

theorem isFiltered_split (flat : ':' ∉ front) (back : List Char) :
    isFiltered (front ++ ':' :: back) = true ↔ (front.dropWhile isWhitespace).map Char.toLower =
      javascript := by
  rw [isFiltered, dropWhile_append_stop (by decide), hasJavascriptScheme_split]
  exact fun member => flat ((List.dropWhile_sublist _).subset member)

/-- Where only white space stands before the scheme, the handler finds it. -/
theorem dropWhile_eq_of_all (scheme : (front.dropWhile isC0OrSpace).map Char.toLower = javascript)
    (all : ∀ c ∈ front.takeWhile isC0OrSpace, isWhitespace c = true) :
    front.dropWhile isWhitespace = front.dropWhile isC0OrSpace := by
  conv_lhs => rw [← List.takeWhile_append_dropWhile (p := isC0OrSpace) (l := front)]
  rw [List.dropWhile_append_of_pos all]
  cases rest : front.dropWhile isC0OrSpace with
  | nil => rfl
  | cons c back =>
    rw [rest] at scheme
    have letter := (letter_of_mem scheme List.mem_cons_self).2.2
    rw [List.dropWhile_cons_of_neg (by simp [letter])]

theorem ledByControl_split (flat : ':' ∉ front) (back : List Char) :
    ledByControl (front ++ ':' :: back) = true ↔
      (front.dropWhile isC0OrSpace).map Char.toLower = javascript ∧
        ∃ c ∈ front.takeWhile isC0OrSpace, isWhitespace c = false := by
  rw [ledByControl, takeWhile_colon flat]
  simp

theorem readsAsJavascript_flat (plain : '&' ∉ text) (flat : ':' ∉ text) :
    readsAsJavascript refs (normalizeWhitespace text) = false := by
  have apart : '&' ∉ normalizeWhitespace text := fun member => plain (mem_squeeze (by decide) member).1
  have decoded : refs.decode (normalizeWhitespace text ++ []) = normalizeWhitespace text ++ refs.decode [] :=
    decode_append apart []
  rw [List.append_nil, refs.decode_nil, List.append_nil] at decoded
  rw [readsAsJavascript, decoded]
  refine hasJavascriptScheme_of_not_mem fun member => ?_
  have inside := (List.dropWhile_sublist _).subset (List.mem_of_mem_filter member)
  exact flat (mem_squeeze (by decide) inside).1

theorem readsAsJavascript_iff (left : isFiltered value = false) :
    readsAsJavascript refs (normalizeWhitespace value) = true ↔ Disguised refs value := by
  rw [Disguised]
  rcases split_colon value with none | ⟨front, back, flat, rfl⟩
  -- without a colon only a reference can bring in a scheme
  · have whole : value.takeWhile (· ≠ ':') = value :=
      List.takeWhile_eq_self_iff.mpr fun c member => decide_eq_true fun same => none (same ▸ member)
    have unled : ¬ ledByControl value = true := by
      simp [ledByControl, none]
    rw [whole, or_iff_right unled, iff_and_self]
    intro reads
    by_contra plain
    rw [readsAsJavascript_flat plain none] at reads
    cases reads
  · rw [takeWhile_colon flat, ledByControl_split flat]
    by_cases reference : '&' ∈ front
    -- an `&` before the colon is no letter of the scheme, so the raw text is no such URL
    · have unled : ¬ ((front.dropWhile isC0OrSpace).map Char.toLower = javascript ∧
          ∃ c ∈ front.takeWhile isC0OrSpace, isWhitespace c = false) := by
        rintro ⟨scheme, -⟩
        rw [← List.takeWhile_append_dropWhile (p := isC0OrSpace) (l := front), List.mem_append] at reference
        rcases reference with control | letter
        · exact absurd (List.mem_takeWhile_imp control) (by decide)
        · exact (letter_of_mem scheme letter).2.1 rfl
      rw [or_iff_right unled, and_iff_right reference]
    · rw [readsAsJavascript_split reference flat, or_iff_left fun both => reference both.1, iff_self_and]
      -- with nothing but white space in front, the handler would have filtered the value
      intro scheme
      by_contra none
      have all : ∀ c ∈ front.takeWhile isC0OrSpace, isWhitespace c = true := fun c member => by
        by_contra other
        exact none ⟨c, member, by simpa using other⟩
      have filtered := (isFiltered_split flat back).mpr (by rwa [dropWhile_eq_of_all scheme all])
      rw [left] at filtered
      cases filtered

end Schemes

/-- No link of the document is read as a script. -/
def Document.Harmless (refs : CharacterReferences) (doc : Document) : Prop :=
  ∀ piece ∈ doc.pieces, ∀ name, name = "href".toList ∨ name = "src".toList →
    ∀ value, getAttribute name piece.tag.attributes = some value → readsAsJavascript refs value = false

namespace ShortPages

theorem solid_of_all {text : List Char} (all : (text.all fun c => decide (isSpace c = false)) = true) :
    Solid text :=
  forall_of_all all

/-- ` name="value"`. -/
def assigned (name value : List Char) (named : Starts name ∧ Solid name) : Attribute where
  gap := [' ']
  name := name
  equals := ['=']
  quote := ['"']
  value := value
  named := named
  quoted := .inr ⟨⟨'"', [], rfl, rfl⟩, solid_of_all (by decide)⟩
  bare := nofun
  ended := nofun

def href (value : String) : Attribute :=
  assigned "href".toList value.toList ⟨⟨'h', _, rfl, rfl⟩, solid_of_all (by decide)⟩

/-- `<a href="value">x</a>`. -/
def linked (value : String) : Document :=
  ⟨[], [⟨.opening ['a'] ⟨⟨'a', _, rfl, rfl⟩, solid_of_all (by decide)⟩ [href value] [], ['x']⟩,
    ⟨.ending ['a'] [] ⟨⟨'a', _, rfl, rfl⟩, solid_of_all (by decide)⟩, []⟩]⟩

/-- `<pre>code</pre>`. -/
def listing (code : String) : Document :=
  ⟨[], [⟨.opening "pre".toList ⟨⟨'p', _, rfl, rfl⟩, solid_of_all (by decide)⟩ [] [], code.toList⟩,
    ⟨.ending "pre".toList [] ⟨⟨'p', _, rfl, rfl⟩, solid_of_all (by decide)⟩, []⟩]⟩

/-- `&#106;` is the letter `j`; no other reference stands here. -/
def decode : List Char → List Char
  | '&' :: '#' :: '1' :: '0' :: '6' :: ';' :: rest => 'j' :: decode rest
  | c :: rest => c :: decode rest
  | [] => []

def refs : CharacterReferences where
  decode := decode
  decode_nil := rfl
  decode_cons c rest other := by
    rw [decode]
    rintro rest' rfl
    exact absurd rfl other

def written : String := "<a href=\"&#106;avascript:alert(1)\">x</a>"

def controlled : String := "<a href=\"\u0001javascript:alert(1)\">x</a>"

def plain : String := "<a href=\" https://a.org/b\">x</a>"

def indented : String := "<pre>if a:\n    b</pre>"

def flat : String := "<pre>if a: b</pre>"

/-- No selector matches in these pages. -/
def rewriter : Rewriter where
  rewrite _ html :=
    if html = written.toList then .ok (linked "&#106;avascript:alert(1)")
    else if html = controlled.toList then .ok (linked "\u0001javascript:alert(1)")
    else if html = plain.toList then .ok (linked " https://a.org/b")
    else if html = indented.toList then .ok (listing "if a:\n    b")
    else if html = flat.toList then .ok (listing "if a: b")
    else .ok ⟨html, []⟩
  rewrite_nil _ := rfl

theorem plain_left :
    ∀ piece ∈ (linked " https://a.org/b").pieces, ∀ name, name = "href".toList ∨ name = "src".toList →
    ∀ value, survivor name piece.tag.attributes = some value → ¬ Disguised refs value := by
  intro piece member name link value found
  rw [linked, List.mem_cons, List.mem_singleton] at member
  rcases member with rfl | rfl <;> rcases link with rfl | rfl <;> cases found
  decide

/-- A listing loses its line and its indentation, and becomes that of one line. -/
theorem listing_joined :
    (cleanHtml rewriter indented.toList = flat.toList ∧ cleanHtml rewriter flat.toList = flat.toList) ∧
      Respaced (listing "if a: b") (listing "if a:\n    b") ∧ ¬ KeepsSpace (listing "if a: b") ∧
      ¬ KeepsSpace (listing "if a:\n    b") := by
  have respaced : Respaced (listing "if a: b") (listing "if a:\n    b") :=
    ⟨rfl, .cons ⟨rfl, by decide⟩ (.cons ⟨rfl, by decide⟩ .nil)⟩
  refine ⟨⟨by decide, by decide⟩, respaced, fun keeps => ?_, fun keeps => ?_⟩
  · refine keeps.told _ respaced (fun same => ?_) (by decide)
    have texts := congrArg (fun doc => doc.pieces.map Piece.text) same
    exact absurd texts (by decide)
  · exact absurd (keeps.preformatted _ List.mem_cons_self (.inl (by decide))) (by decide)

end ShortPages

end Webfang.Domain.HtmlCleaner
