import Webfang.Sitemap.SitemapEvents

/-!
# Sitemap documents

A sitemap document by its information content: a root of url or sitemap elements, these with the
texts of their fields, among elements of other vocabularies. Beside it the spelling: a text in pieces,
and an element without content as one tag. The reader delivers the spelling, the entries of the
document are those of the content.
-/
namespace Webfang.Sitemap

open Library

/-! ### Documents -/

inductive FieldName where
  | loc
  | lastmod
  | priority
  | changefreq
  deriving DecidableEq, Repr

def FieldName.tag : FieldName → String
  | .loc => "loc"
  | .lastmod => "lastmod"
  | .priority => "priority"
  | .changefreq => "changefreq"

inductive ItemKind where
  | url
  | sitemap
  deriving DecidableEq, Repr

def ItemKind.tag : ItemKind → String
  | .url => "url"
  | .sitemap => "sitemap"

/-- What a text is put together from. A comment parts it and adds nothing. -/
inductive Piece where
  | text (content : String)
  | cdata (content : String)
  | reference (name : String)
  | comment

/-- An element without content may be one tag. -/
inductive Spelled (α : Type) where
  | emptyTag
  | tags (content : List α)

def Spelled.content {α : Type} : Spelled α → List α
  | .emptyTag => []
  | .tags content => content

/-- The names that mean something to a sitemap. -/
def vocabulary : List String := ["url", "sitemap", "loc", "lastmod", "priority", "changefreq"]

/-- Not part of the vocabulary: other elements, their text, and text between the elements. -/
def Event.isForeign : Event → Bool
  | .start name => name ∉ vocabulary
  | .end name => name ∉ vocabulary
  | .empty name => name ∉ vocabulary
  | _ => true

abbrev Foreign := { event : Event // event.isForeign = true }

inductive Child where
  | field (name : FieldName) (spelled : Spelled Piece)
  | foreign (event : Foreign)

structure Item where
  kind : ItemKind
  spelled : Spelled Child

inductive Node where
  | item (item : Item)
  | foreign (event : Foreign)

inductive RootName where
  | urlset
  | sitemapindex
  deriving DecidableEq, Repr

def RootName.tag : RootName → String
  | .urlset => "urlset"
  | .sitemapindex => "sitemapindex"

/-- No element: text, comments, declarations. -/
def Event.isMisc : Event → Bool
  | .text _ => true
  | .other => true
  | _ => false

abbrev Misc := { event : Event // event.isMisc = true }

structure Document where
  prolog : List Misc
  root : RootName
  spelled : Spelled Node
  epilog : List Misc

/-! ### What the reader delivers -/

def Piece.event : Piece → Event
  | .text content => .text (.ok content)
  | .cdata content => .cdata content
  | .reference name => .generalRef name
  | .comment => .other

def Spelled.events {α : Type} (tag : String) (inner : α → List Event) : Spelled α → List Event
  | .emptyTag => [.empty tag]
  | .tags content => .start tag :: content.flatMap inner ++ [.end tag]

def Child.events : Child → List Event
  | .field name spelled => spelled.events name.tag fun piece => [piece.event]
  | .foreign event => [event.val]

def Item.events (item : Item) : List Event := item.spelled.events item.kind.tag Child.events

def Node.events : Node → List Event
  | .item element => element.events
  | .foreign event => [event.val]

namespace Document

variable (doc : Document)

def events : List Event :=
  doc.prolog.map Subtype.val ++ doc.spelled.events doc.root.tag Node.events ++
    doc.epilog.map Subtype.val

def first (n : Nat) : Document :=
  match doc.spelled with
  | .emptyTag => doc
  | .tags content => { doc with spelled := .tags (content.take n) }

def nodes : List Node := doc.spelled.content

end Document

/-! ### What the document says -/

section Content

variable (entities : String → String)

/-- A reference stands for its character or for the text of its entity. -/
def Piece.content : Piece → String
  | .text content => content
  | .cdata content => content
  | .reference name => entities name
  | .comment => ""

/-- The texts of the fields with this name. A field without text has none. -/
def Item.texts (item : Item) (name : FieldName) : List String :=
  item.spelled.content.filterMap fun
    | .field other spelled =>
      let text := String.join (spelled.content.map (Piece.content entities))
      if other = name ∧ text ≠ "" then some text else none
    | .foreign _ => none

/-- The piece as an event with a text; only a loc is read from CDATA. -/
def Piece.read (name : FieldName) : Piece → Option String
  | .text content => some content
  | .cdata content => if name = .loc then some content else none
  | _ => none

/-- The pieces of these fields, each as a text of its own. -/
def Item.pieces (item : Item) (name : FieldName) : List String :=
  item.spelled.content.flatMap fun
    | .field other spelled => if other = name then spelled.content.filterMap (Piece.read name) else []
    | .foreign _ => []

def latest {α : Type} (value : String → Option α) (texts : List String) : Option α :=
  texts.reverse.findSome? value

namespace CoreParser

variable (parser : CoreParser) {floats : Floats}

def accepted (text : String) : Option String := parser.readLoc text none

def trimmed (text : String) : Option String := some (Text.trim text)

def priority (floats : Floats) (text : String) : Option floats.F32 :=
  (floats.parse (Text.trim text)).map floats.clamp

/-- The entry of an element with these texts of its fields. The sitemaps of an index have no other
field than the loc, and are no elements of a plain list. -/
def entryFrom (kind : ItemKind) (texts : FieldName → List String) : Option (SitemapUrl floats) :=
  match kind with
  | .url =>
    (latest parser.accepted (texts .loc)).map fun url =>
      ⟨url, latest trimmed (texts .lastmod), latest (priority floats) (texts .priority),
        latest trimmed (texts .changefreq)⟩
  | .sitemap =>
    if parser.handleSitemapIndex then
      (latest parser.accepted (texts .loc)).map fun url => ⟨url, none, none, none⟩
    else none

def entries (doc : Document) : List (SitemapUrl floats) :=
  doc.nodes.filterMap fun
    | .item item => parser.entryFrom item.kind (item.texts entities)
    | .foreign _ => none

def isIndex (doc : Document) : Bool := parser.handleSitemapIndex && doc.root = .sitemapindex

/-- The entries are those of the content, up to every node: each element gives its own. -/
def Faithful (floats : Floats) (doc : Document) : Prop :=
  ∀ n, parser.parseSitemapCore ((doc.first n).events.map .ok) =
    .ok ((parser.entries entities (doc.first n) : List (SitemapUrl floats)), parser.isIndex doc)

end CoreParser

end Content

end Webfang.Sitemap
