import Webfang.Library.Backtrack
import Webfang.Library.Sweep

/-!
# Pruning a document

`prune_dom` removes what its patterns match, up to five rounds long: an element that seems to be hidden
inline, up to the first closing tag of a listed kind, and wrappers without content. A document is a tree of
elements and text. Written out it is a row of tags and texts, and the patterns take whole tags and texts:
each `replace_all` is a sweep over the row.
-/
namespace Webfang.Domain.DomPruner

open Library Text Backtrack Sweep

/-- The tags that `DISPLAY_NONE_RE` and `VISIBILITY_HIDDEN_RE` list. -/
def listedTags : List String :=
  ["div", "span", "p", "section", "article", "footer", "nav", "aside", "header", "main", "ul", "ol", "li"]

def pruneTags : List String := ["div", "span", "p", "section", "article"]

def listedTag : Pattern := alts (listedTags.map literal)

/-- `(?:div|…)[^>]*property\s*:\s*value`. -/
def hiddenFront (property value : String) : List Pattern :=
  [listedTag, .greedy (· != '>'), literal property, .greedy isWhitespace, .one (· == ':'),
    .greedy isWhitespace, literal value]

/-- `</(?:div|…)>`. -/
def listedClose : List Pattern := [.one (· == '<'), .one (· == '/'), listedTag, .one (· == '>')]

/-- `(?is)<(?:div|…)[^>]*property\s*:\s*value[^>]*>.*?</(?:div|…)>`. -/
def hiddenPattern (property value : String) : Pattern :=
  seqs (.one (· == '<') :: (hiddenFront property value ++ ([.greedy (· != '>'), .one (· == '>')] ++
    .lazily (fun _ => true) :: listedClose)))

def displayNone : Pattern := hiddenPattern "display" "none"

def visibilityHidden : Pattern := hiddenPattern "visibility" "hidden"

/-- `(?is)<tag[^>]*>\s*</tag>`. -/
def emptyWrapper (tag : String) : Pattern :=
  seqs (.one (· == '<') :: ([literal tag] ++ ([.greedy (· != '>'), .one (· == '>')] ++
    [.greedy isWhitespace, .one (· == '<'), .one (· == '/'), literal tag, .one (· == '>')])))

def emptyWrapperPatterns : List Pattern := pruneTags.map emptyWrapper

/-- One `replace_all` of a round, which sets `changed` when it made a difference. -/
def replacePass (pattern : Pattern) (state : List Char × Bool) : List Char × Bool :=
  let result := removeAll pattern state.1
  (result, state.2 || state.1 != result)

def removeInvisibleLoop : Nat → List Char → List Char
  | 0, html => html
  | rounds + 1, html =>
    let hidden := replacePass visibilityHidden (replacePass displayNone (html, false))
    let (result, changed) :=
      emptyWrapperPatterns.foldl (fun state pattern => replacePass pattern state) hidden
    if changed then removeInvisibleLoop rounds result else result

def maxIter : Nat := 5

def removeInvisible (html : List Char) : List Char := removeInvisibleLoop maxIter html

/-- `prune_dom`, without the ratio. -/
def pruneDom (html : List Char) : List Char := if html = [] then html else removeInvisible html

/-! ### Trees -/

/-- No angle bracket is among the characters. -/
def AngleFree (chars : List Char) : Prop := '<' ∉ chars ∧ '>' ∉ chars

instance (chars : List Char) : Decidable (AngleFree chars) := inferInstanceAs (Decidable (_ ∧ _))

/-- The name of a tag starts with a letter and ends at a space or a slash. -/
structure TagName where
  chars : List Char
  starts : ∃ c rest, chars = c :: rest ∧ c.isAlpha = true
  plain : ∀ c ∈ chars, isWhitespace c = false ∧ c ≠ '/'
  free : AngleFree chars

/-- An attribute, whose value stands between double quotes. -/
structure Attribute where
  name : List Char
  value : List Char
  plain : ∀ c ∈ name, isWhitespace c = false ∧ c ∉ ['"', '\'', '=', '/']
  quoted : '"' ∉ value
  free : AngleFree name ∧ AngleFree value

def lower (chars : List Char) : List Char := chars.map Char.toLower

/-- The elements without content and closing tag. -/
def voidTags : List String :=
  ["area", "base", "br", "col", "embed", "hr", "img", "input", "link", "meta", "param", "source", "track",
    "wbr"]

inductive Html where
  | text (chars : List Char) (free : AngleFree chars)
  | void (name : TagName) (attributes : List Attribute) (listed : String.ofList (lower name.chars) ∈ voidTags)
  | element (name : TagName) (attributes : List Attribute) (children : List Html)

def attributesText (attributes : List Attribute) : List Char :=
  attributes.flatMap fun pair => ' ' :: (pair.name ++ ("=\"".toList ++ (pair.value ++ ['"'])))

/-- What stands between the brackets of an opening tag. -/
def tagText (name : TagName) (attributes : List Attribute) : List Char :=
  name.chars ++ attributesText attributes

mutual

/-- The markup of a node. -/
def Html.write : Html → List Char
  | .text chars _ => chars
  | .void name attributes _ => '<' :: (tagText name attributes ++ ['>'])
  | .element name attributes children =>
    '<' :: (tagText name attributes ++ ('>' :: (writeAll children ++ ('<' :: '/' :: (name.chars ++ ['>'])))))

/-- The markup of a document. -/
def writeAll : List Html → List Char
  | [] => []
  | node :: nodes => node.write ++ writeAll nodes

end

/-! ### Inline styles -/

def trimmed (chars : List Char) : List Char := trimEnds isWhitespace chars

/-- A declaration `property: value`, possibly marked as important. -/
def declares (property value declaration : List Char) : Bool :=
  let (front, back) := declaration.span (· != ':')
  lower (trimmed front) == property && lower (trimmed ((back.drop 1).takeWhile (· != '!'))) == value

def hides (style : List Char) : Bool :=
  (style.splitOn ';').any fun declaration =>
    declares "display".toList "none".toList declaration ||
      declares "visibility".toList "hidden".toList declaration

def hiddenElement (name : TagName) (attributes : List Attribute) : Bool :=
  listedTags.any (fun tag => tag.toList == lower name.chars) &&
    (attributes.find? fun pair => lower pair.name == "style".toList).any fun pair => hides pair.value

/-! ### Pieces -/

inductive Token where
  | opening (inner : List Char)
  | closing (name : List Char)
  | text (chars : List Char)
  deriving DecidableEq

def Token.write : Token → List Char
  | .opening inner => '<' :: (inner ++ ['>'])
  | .closing name => '<' :: '/' :: (name ++ ['>'])
  | .text chars => chars

mutual

/-- The tags and texts of a node, each with whether it stands in a hidden element. -/
def Html.tokens (hidden : Bool) : Html → List (Token × Bool)
  | .text chars _ => [(.text chars, hidden)]
  | .void name attributes _ => [(.opening (tagText name attributes), hidden)]
  | .element name attributes children =>
    let within := hidden || hiddenElement name attributes
    (.opening (tagText name attributes), hidden) ::
      (tokensAll within children ++ [(.closing name.chars, hidden)])

def tokensAll (hidden : Bool) : List Html → List (Token × Bool)
  | [] => []
  | node :: nodes => node.tokens hidden ++ tokensAll hidden nodes

end

/-- A tag or a text of a document, with its place. -/
structure Piece where
  token : Token
  hidden : Bool
  place : Nat
  deriving DecidableEq

def pieces (document : List Html) : List Piece :=
  (tokensAll false document).zipIdx.map fun ((token, hidden), place) => ⟨token, hidden, place⟩

def render (row : List Piece) : List Char := row.flatMap fun piece => piece.token.write

/-- The markup of some tokens. -/
def writeTokens (entries : List (Token × Bool)) : List Char := entries.flatMap fun entry => entry.1.write

theorem writeTokens_append (front back : List (Token × Bool)) :
    writeTokens (front ++ back) = writeTokens front ++ writeTokens back := List.flatMap_append

mutual

theorem write_tokens (hidden : Bool) (node : Html) : writeTokens (node.tokens hidden) = node.write := by
  cases node with
  | text chars => simp [Html.tokens, Html.write, writeTokens, Token.write]
  | void name attributes => simp [Html.tokens, Html.write, writeTokens, Token.write]
  | element name attributes children =>
    have inner := write_tokensAll (hidden || hiddenElement name attributes) children
    have last : writeTokens [(.closing name.chars, hidden)] = '<' :: '/' :: (name.chars ++ ['>']) :=
      List.append_nil _
    rw [Html.tokens, ← List.singleton_append, writeTokens_append, writeTokens_append, inner, last]
    simp [Html.write, writeTokens, Token.write]

theorem write_tokensAll (hidden : Bool) (nodes : List Html) :
    writeTokens (tokensAll hidden nodes) = writeAll nodes := by
  cases nodes with
  | nil => rfl
  | cons node nodes =>
    rw [tokensAll, writeTokens_append, write_tokens hidden node, write_tokensAll hidden nodes, writeAll]

end

/-- The pieces are the tokens in their order. -/
theorem map_pieces (document : List Html) :
    (pieces document).map (fun piece => (piece.token, piece.hidden)) = tokensAll false document := by
  rw [pieces, List.map_map]
  exact List.zipIdx_map_fst 0 (tokensAll false document)

theorem render_pieces (document : List Html) : render (pieces document) = writeAll document := by
  rw [← write_tokensAll false document, ← map_pieces document, writeTokens, List.flatMap_map]
  rfl

theorem placed_pieces (document : List Html) : Placed Piece.place (pieces document) := by
  rw [Placed, pieces, List.pairwise_map]
  have rising : ((tokensAll false document).zipIdx.map Prod.snd).Pairwise (· < ·) := by
    rw [List.zipIdx_map_snd]
    exact List.pairwise_lt_range'
  exact List.pairwise_map.mp rising

/-! ### Sound tokens -/

/-- No angle bracket stands inside, and no tag that opens looks like one that closes. -/
def Token.Sound : Token → Prop
  | .opening inner => AngleFree inner ∧ ∃ c rest, inner = c :: rest ∧ c ≠ '/'
  | .closing name => AngleFree name
  | .text chars => AngleFree chars

theorem AngleFree.append {front back : List Char} (first : AngleFree front) (second : AngleFree back) :
    AngleFree (front ++ back) :=
  ⟨fun inside => (List.mem_append.mp inside).elim first.1 second.1,
    fun inside => (List.mem_append.mp inside).elim first.2 second.2⟩

theorem angleFree_attributesText (attributes : List Attribute) : AngleFree (attributesText attributes) := by
  induction attributes with
  | nil => decide
  | cons pair attributes ih =>
    have equals : AngleFree "=\"".toList := by decide
    have quote : AngleFree ['"'] := by decide
    have blank : AngleFree [' '] := by decide
    rw [attributesText, List.flatMap_cons, ← List.singleton_append]
    exact (blank.append (pair.free.1.append (equals.append (pair.free.2.append quote)))).append ih

theorem sound_tagText (name : TagName) (attributes : List Attribute) :
    (Token.opening (tagText name attributes)).Sound := by
  obtain ⟨c, rest, split, letter⟩ := name.starts
  have free := name.free.append (angleFree_attributesText attributes)
  refine ⟨free, c, rest ++ attributesText attributes, ?_, ?_⟩
  · rw [tagText, split, List.cons_append]
  · rintro rfl
    cases letter

mutual

theorem sound_tokens (hidden : Bool) (node : Html) : ∀ entry ∈ node.tokens hidden, entry.1.Sound := by
  cases node with
  | text chars free => simpa [Html.tokens, Token.Sound] using free
  | void name attributes => simpa [Html.tokens] using sound_tagText name attributes
  | element name attributes children =>
    intro entry member
    simp only [Html.tokens, List.mem_cons, List.mem_append, List.not_mem_nil, or_false] at member
    rcases member with rfl | inside | rfl
    · exact sound_tagText name attributes
    · exact sound_tokensAll _ children entry inside
    · exact name.free

theorem sound_tokensAll (hidden : Bool) (nodes : List Html) :
    ∀ entry ∈ tokensAll hidden nodes, entry.1.Sound := by
  cases nodes with
  | nil => simp [tokensAll]
  | cons node nodes =>
    intro entry member
    rcases List.mem_append.mp member with first | later
    · exact sound_tokens hidden node entry first
    · exact sound_tokensAll hidden nodes entry later

end

end Webfang.Domain.DomPruner
