import Webfang.Library.Checks
import Webfang.Sitemap.SitemapDocument

/-!
# The entries of a sitemap document

Every element gives the entry of its content exactly where the pieces of its texts, each taken for a
whole text, come to the same. The reader runs over the events of a document node by node: between two
nodes no flag is set, and an element leaves its entry behind.
-/
namespace Webfang.Sitemap

open Library

variable {floats : Floats} (parser : CoreParser) (entities : String → String)

/-! ### The last value -/

section Latest

variable {α : Type} (value : String → Option α)

theorem latest_nil : latest value [] = none := rfl

theorem latest_append (first second : List String) :
    latest value (first ++ second) = (latest value second).or (latest value first) := by
  rw [latest, List.reverse_append, List.findSome?_append]
  rfl

theorem latest_cons (text : String) (rest : List String) :
    latest value (text :: rest) = (latest value rest).or (value text) := by
  rw [← List.singleton_append, latest_append]
  simp [latest]

end Latest

namespace CoreParser

theorem readLoc_eq (text : String) (current : Option String) :
    parser.readLoc text current = (parser.accepted text).or current := by
  rw [accepted, readLoc, readLoc]
  split
  next => rfl
  next =>
    split
    next =>
      rw [applyUrlValidation, applyUrlValidation]
      split
      next => split <;> rfl
      next => rfl
    next => rfl

/-! ### One field -/

def readField (name : FieldName) (current : Current floats) (text : String) : Current floats :=
  match name with
  | .loc => { current with url := (parser.accepted text).or current.url }
  | .lastmod => { current with lastmod := (trimmed text).or current.lastmod }
  | .priority => { current with priority := (priority floats text).or current.priority }
  | .changefreq => { current with changefreq := (trimmed text).or current.changefreq }

def readTexts (name : FieldName) (texts : List String) (current : Current floats) : Current floats :=
  match name with
  | .loc => { current with url := (latest parser.accepted texts).or current.url }
  | .lastmod => { current with lastmod := (latest trimmed texts).or current.lastmod }
  | .priority => { current with priority := (latest (priority floats) texts).or current.priority }
  | .changefreq => { current with changefreq := (latest trimmed texts).or current.changefreq }

theorem foldl_readField (name : FieldName) (texts : List String) (current : Current floats) :
    texts.foldl (parser.readField name) current = parser.readTexts name texts current := by
  induction texts generalizing current with
  | nil => cases name <;> rfl
  | cons text rest ih =>
    rw [List.foldl_cons, ih]
    cases name <;> simp only [readTexts, readField, latest_cons, Option.or_assoc]

end CoreParser

/-- The field whose text is read. -/
def Inside.field (inside : Inside) : Option FieldName :=
  if inside.loc then some .loc
  else if inside.lastmod then some .lastmod
  else if inside.priority then some .priority
  else if inside.changefreq then some .changefreq
  else none

theorem Inside.field_ne_loc {inside : Inside} (closed : ¬ inside.loc = true) :
    inside.field ≠ some .loc := by
  rw [Inside.field, if_neg closed]
  split_ifs <;> nofun

namespace CoreParser

/-- An event inside a field. -/
theorem step_piece (state : CoreState floats) (piece : Piece) :
    parser.step state piece.event = .ok { state with
      current := match state.inside.field with
        | some name => ((piece.read name).map (parser.readField name state.current)).getD state.current
        | none => state.current } := by
  cases piece with
  | text content =>
    rw [Piece.event, step, readText, Inside.field]
    dsimp only
    split
    next => simp [Piece.read, readField, readLoc_eq]
    next =>
      split
      next => simp [Piece.read, readField, trimmed]
      next =>
        split
        next =>
          cases parsed : floats.parse (Text.trim content) <;>
            simp [Piece.read, readField, priority, parsed]
        next =>
          split
          next => simp [Piece.read, readField, trimmed]
          next => rfl
  | cdata content =>
    rw [Piece.event, step]
    split
    next inLoc => simp [Inside.field, inLoc, Piece.read, readField, readLoc_eq]
    next closed =>
      cases field : state.inside.field with
      | none => rfl
      | some name =>
        have other : name ≠ .loc := fun loc => Inside.field_ne_loc closed (loc ▸ field)
        simp [Piece.read, other]
  | reference name =>
    rw [Piece.event, step]
    split <;> rfl
  | comment =>
    rw [Piece.event, step]
    split <;> rfl

theorem foldlM_pieces (state : CoreState floats) (pieces : List Piece) :
    (pieces.map Piece.event).foldlM parser.step state = .ok { state with
      current := match state.inside.field with
        | some name => parser.readTexts name (pieces.filterMap (Piece.read name)) state.current
        | none => state.current } := by
  induction pieces generalizing state with
  | nil =>
    rw [List.map_nil, List.foldlM_nil]
    cases field : state.inside.field with
    | none => rfl
    | some name => cases name <;> rfl
  | cons piece rest ih =>
    rw [List.map_cons, List.foldlM_cons, step_piece]
    refine (ih _).trans ?_
    dsimp only
    cases field : state.inside.field with
    | none => rfl
    | some name =>
      dsimp only
      rw [List.filterMap_cons]
      cases read : piece.read name with
      | none => rfl
      | some text => rw [← foldl_readField, ← foldl_readField, List.foldl_cons]; rfl

/-! ### Where the reader is -/

/-- Between the fields of an element that gives an entry, or in none. -/
def within : Option ItemKind → Inside
  | some .url => { Inside.nothing with url := true }
  | some .sitemap => { Inside.nothing with sitemap := true }
  | none => .nothing

def reads : Option ItemKind → FieldName → Bool
  | some .url, _ => true
  | some .sitemap, name => name = .loc
  | none, _ => false

def «open» (inside : Inside) : FieldName → Inside
  | .loc => { inside with loc := true }
  | .lastmod => { inside with lastmod := true }
  | .priority => { inside with priority := true }
  | .changefreq => { inside with changefreq := true }

/-- In a field that is read, or still where the reader was. -/
def inField (context : Option ItemKind) (name : FieldName) : Inside :=
  if reads context name then «open» (within context) name else within context

theorem field_inField (context : Option ItemKind) (name : FieldName) :
    (inField context name).field = if reads context name then some name else none := by
  rcases context with _ | _ | _ <;> cases name <;> rfl

variable {urls : List (SitemapUrl floats)} {rootTag : Option String} {isIndex : Bool}
  {inside : Inside} {current : Current floats} {context : Option ItemKind} {parser}

section Steps

variable (rooted : (parser.handleSitemapIndex && rootTag.isNone) = false)
  (handled : context = some .sitemap → parser.handleSitemapIndex = true)

include rooted in
theorem step_start (name : String) :
    parser.step ⟨urls, rootTag, isIndex, true, inside, current⟩ (.start name) =
      .ok (parser.enter ⟨urls, rootTag, isIndex, true, inside, current⟩ name) := by
  rw [step, classifyRoot]
  simp only [rooted, Bool.false_eq_true, if_false]

include handled in
theorem enter_field (name : FieldName) :
    parser.enter ⟨urls, rootTag, isIndex, true, within context, current⟩ name.tag =
      ⟨urls, rootTag, isIndex, true, inField context name, current⟩ := by
  rcases context with _ | _ | _ <;> cases name <;>
    simp [enter, FieldName.tag, inField, reads, within, «open», Inside.nothing, handled]

theorem leave_field (name : FieldName) :
    parser.leave ⟨urls, rootTag, isIndex, true, inField context name, current⟩ name.tag =
      ⟨urls, rootTag, isIndex, true, within context, current⟩ := by
  rcases context with _ | _ | _ <;> cases name <;>
    simp [leave, FieldName.tag, inField, reads, within, «open», Inside.nothing]

include rooted handled in
/-- A field leaves the reader where it was, and its texts with the element. -/
theorem run_field (name : FieldName) (spelled : Spelled Piece) :
    (spelled.events name.tag fun piece => [piece.event]).foldlM parser.step
        ⟨urls, rootTag, isIndex, true, within context, current⟩ =
      .ok ⟨urls, rootTag, isIndex, true, within context,
        if reads context name then
          parser.readTexts name (spelled.content.filterMap (Piece.read name)) current
        else current⟩ := by
  cases spelled with
  | emptyTag =>
    have nothing : parser.readTexts name [] current = current := by cases name <;> rfl
    rw [Spelled.content, List.filterMap_nil, nothing, ite_self]
    rfl
  | tags pieces =>
    have entered : parser.step ⟨urls, rootTag, isIndex, true, within context, current⟩ (.start name.tag) =
        .ok ⟨urls, rootTag, isIndex, true, inField context name, current⟩ := by
      rw [step_start rooted, enter_field handled]
    rw [Spelled.events, List.cons_append, ← List.map_eq_flatMap]
    refine Checks.foldlM_cons_ok entered (Checks.foldlM_append_ok (parser.foldlM_pieces _ pieces) ?_)
    rw [List.foldlM_cons, step, leave_field]
    dsimp only
    rw [field_inField]
    cases reads context name <;> rfl

/-- What is not of the vocabulary is passed over between the fields. -/
theorem enter_foreign {name : String} (foreign : name ∉ vocabulary) (state : CoreState floats) :
    parser.enter state name = state := by
  simp only [vocabulary, List.mem_cons, List.not_mem_nil, or_false, not_or] at foreign
  simp [enter, foreign]

theorem leave_foreign {name : String} (foreign : name ∉ vocabulary) (state : CoreState floats) :
    parser.leave state name = state := by
  simp only [vocabulary, List.mem_cons, List.not_mem_nil, or_false, not_or] at foreign
  simp [leave, foreign]

theorem readText_within (sawElement : Bool) (decoded : Except String String) :
    parser.readText ⟨urls, rootTag, isIndex, sawElement, within context, current⟩ decoded =
      .ok ⟨urls, rootTag, isIndex, sawElement, within context, current⟩ := by
  rcases context with _ | _ | _ <;> cases decoded <;> rfl

include rooted in
theorem step_foreign (event : Foreign) :
    parser.step ⟨urls, rootTag, isIndex, true, within context, current⟩ event.val =
      .ok ⟨urls, rootTag, isIndex, true, within context, current⟩ := by
  obtain ⟨event, foreign⟩ := event
  cases event with
  | start name => rw [step_start rooted, enter_foreign (of_decide_eq_true foreign)]
  | «end» name => rw [step, leave_foreign (of_decide_eq_true foreign)]
  | text decoded => exact readText_within true decoded
  | cdata content => rcases context with _ | _ | _ <;> rfl
  | empty name => rfl
  | generalRef name => rfl
  | other => rfl

/-! ### One element -/

variable (parser) in
def readChild (context : Option ItemKind) (current : Current floats) : Child → Current floats
  | .field name spelled =>
    if reads context name then
      parser.readTexts name (spelled.content.filterMap (Piece.read name)) current
    else current
  | .foreign _ => current

include rooted handled in
theorem run_children (children : List Child) : (children.flatMap Child.events).foldlM parser.step
        ⟨urls, rootTag, isIndex, true, within context, current⟩ =
      .ok ⟨urls, rootTag, isIndex, true, within context,
        children.foldl (parser.readChild context) current⟩ := by
  induction children generalizing current with
  | nil => rfl
  | cons child rest ih =>
    rw [List.flatMap_cons]
    refine Checks.foldlM_append_ok ?_ ih
    cases child with
    | field name spelled => exact run_field rooted handled name spelled
    | foreign event =>
      rw [Child.events, List.foldlM_cons, step_foreign rooted]
      rfl

end Steps

theorem pieces_cons (kind : ItemKind) (child : Child) (rest : List Child) (name : FieldName) :
    (Item.mk kind (.tags (child :: rest))).pieces name =
      (match child with
        | .field other spelled =>
          if other = name then spelled.content.filterMap (Piece.read name) else []
        | .foreign _ => []) ++ (Item.mk kind (.tags rest)).pieces name :=
  List.flatMap_cons

variable (parser) in
/-- All children of an element: of each field that is read the last value of its pieces. -/
theorem foldl_readChild (kind : ItemKind) (context : Option ItemKind) (children : List Child)
    (current : Current floats) :
    children.foldl (parser.readChild context) current =
      ⟨if reads context .loc then
          (latest parser.accepted ((Item.mk kind (.tags children)).pieces .loc)).or current.url
        else current.url,
      if reads context .lastmod then
          (latest trimmed ((Item.mk kind (.tags children)).pieces .lastmod)).or current.lastmod
        else current.lastmod,
      if reads context .priority then
          (latest (priority floats) ((Item.mk kind (.tags children)).pieces .priority)).or current.priority
        else current.priority,
      if reads context .changefreq then
          (latest trimmed ((Item.mk kind (.tags children)).pieces .changefreq)).or current.changefreq
        else current.changefreq⟩ := by
  induction children generalizing current with
  | nil => simp [Item.pieces, Spelled.content, latest_nil]
  | cons child rest ih =>
    rw [List.foldl_cons, ih]
    cases child with
    | foreign event => simp [readChild, pieces_cons]
    | field name spelled =>
      cases read : reads context name <;> cases name <;>
        simp [pieces_cons, readChild, readTexts, latest_append, Option.or_assoc, read]

/-- Where an element of this kind is read. -/
def contextOf (parser : CoreParser) : ItemKind → Option ItemKind
  | .url => some .url
  | .sitemap => if parser.handleSitemapIndex then some .sitemap else none

theorem handled_contextOf {kind : ItemKind} :
    parser.contextOf kind = some .sitemap → parser.handleSitemapIndex = true := by
  cases kind with
  | url => nofun
  | sitemap =>
    rw [contextOf]
    split
    next handles => exact fun _ => handles
    next => nofun

variable (parser) in
/-- An element starts without a URL, and one that is read as a page without anything. -/
def cleared (kind : ItemKind) (current : Current floats) : Current floats :=
  match parser.contextOf kind with
  | some .url => .none
  | some .sitemap => { current with url := none, lastmod := none }
  | none => current

theorem enter_item (kind : ItemKind) :
    parser.enter ⟨urls, rootTag, isIndex, true, .nothing, current⟩ kind.tag =
      ⟨urls, rootTag, isIndex, true, within (parser.contextOf kind), parser.cleared kind current⟩ := by
  cases kind with
  | url => simp [enter, ItemKind.tag, contextOf, cleared, within]
  | sitemap =>
    cases handles : parser.handleSitemapIndex <;>
      simp [enter, ItemKind.tag, contextOf, cleared, within, handles, Inside.nothing]

/-- The end of an element leaves the entry of its pieces. -/
theorem leave_item (kind : ItemKind) (children : List Child) :
    ∃ after, parser.leave ⟨urls, rootTag, isIndex, true, within (parser.contextOf kind),
        children.foldl (parser.readChild (parser.contextOf kind)) (parser.cleared kind current)⟩
        kind.tag =
      ⟨urls ++ (parser.entryFrom kind (Item.mk kind (.tags children)).pieces).toList, rootTag, isIndex,
        true, .nothing, after⟩ := by
  rw [foldl_readChild parser kind]
  cases kind with
  | url =>
    cases url : latest parser.accepted ((Item.mk .url (.tags children)).pieces .loc) <;>
      simp [leave, ItemKind.tag, contextOf, cleared, within, reads, entryFrom, url, Current.none,
        Inside.nothing]
  | sitemap =>
    cases handles : parser.handleSitemapIndex with
    | false => simp [leave, ItemKind.tag, contextOf, within, entryFrom, handles, Inside.nothing]
    | true =>
      cases url : latest parser.accepted ((Item.mk .sitemap (.tags children)).pieces .loc) <;>
        simp [leave, ItemKind.tag, contextOf, cleared, within, reads, entryFrom, url, handles,
          Inside.nothing]

variable (rooted : (parser.handleSitemapIndex && rootTag.isNone) = false)

theorem entryFrom_emptyTag (kind : ItemKind) :
    parser.entryFrom kind (Item.mk kind .emptyTag).pieces = (none : Option (SitemapUrl floats)) := by
  cases kind <;> simp [entryFrom, Item.pieces, Spelled.content, latest_nil]

include rooted in
theorem run_item (item : Item) :
    ∃ after, item.events.foldlM parser.step ⟨urls, rootTag, isIndex, true, .nothing, current⟩ =
      .ok ⟨urls ++ (parser.entryFrom item.kind item.pieces).toList, rootTag, isIndex, true, .nothing,
        after⟩ := by
  obtain ⟨kind, spelled⟩ := item
  cases spelled with
  | emptyTag =>
    rw [entryFrom_emptyTag, Option.toList_none, List.append_nil]
    exact ⟨current, rfl⟩
  | tags children =>
    obtain ⟨after, left⟩ := leave_item kind children
    have entered : parser.step ⟨urls, rootTag, isIndex, true, .nothing, current⟩ (.start kind.tag) =
        .ok ⟨urls, rootTag, isIndex, true, within (parser.contextOf kind), parser.cleared kind current⟩ := by
      rw [step_start rooted, enter_item]
    refine ⟨after, ?_⟩
    rw [Item.events, Spelled.events, List.cons_append]
    refine Checks.foldlM_cons_ok entered
      (Checks.foldlM_append_ok (run_children rooted handled_contextOf children) ?_)
    rw [List.foldlM_cons, step, left]
    rfl

/-! ### The document -/

variable (parser) in
/-- The entry that the parser takes from a node. -/
def readNode : Node → Option (SitemapUrl floats)
  | .item item => parser.entryFrom item.kind item.pieces
  | .foreign _ => none

include rooted in
theorem run_nodes (nodes : List Node) :
    ∃ after, (nodes.flatMap Node.events).foldlM parser.step
        ⟨urls, rootTag, isIndex, true, .nothing, current⟩ =
      .ok ⟨urls ++ nodes.filterMap parser.readNode, rootTag, isIndex, true, .nothing, after⟩ := by
  induction nodes generalizing urls current with
  | nil => exact ⟨current, by rw [List.filterMap_nil, List.append_nil]; rfl⟩
  | cons node rest ih =>
    cases node with
    | item item =>
      obtain ⟨middle, here⟩ := @run_item _ _ urls rootTag isIndex current rooted item
      obtain ⟨after, later⟩ := ih
      refine ⟨after, ?_⟩
      rw [List.flatMap_cons]
      refine Checks.foldlM_append_ok here (later.trans ?_)
      rw [List.append_assoc, List.filterMap_cons, readNode]
      cases parser.entryFrom item.kind item.pieces <;> rfl
    | foreign event =>
      obtain ⟨after, later⟩ := ih
      have passed : parser.step ⟨urls, rootTag, isIndex, true, within none, current⟩ event.val =
          .ok ⟨urls, rootTag, isIndex, true, within none, current⟩ := step_foreign rooted event
      refine ⟨after, ?_⟩
      rw [List.flatMap_cons]
      exact Checks.foldlM_cons_ok passed later

theorem run_misc (sawElement : Bool) (events : List Misc) :
    (events.map Subtype.val).foldlM parser.step
        ⟨urls, rootTag, isIndex, sawElement, .nothing, current⟩ =
      .ok ⟨urls, rootTag, isIndex, sawElement, .nothing, current⟩ := by
  induction events with
  | nil => rfl
  | cons event rest ih =>
    obtain ⟨event, misc⟩ := event
    refine Checks.foldlM_cons_ok ?_ ih
    cases event with
    | text decoded => cases decoded <;> rfl
    | other => rfl
    | _ => cases misc

theorem parse_of_run {events : List Event} {after : CoreState floats}
    (run : events.foldlM parser.step .initial = .ok after) :
    parser.parseSitemapCore (events.map .ok) =
      if !after.sawElement then .error .invalidStructure else .ok (after.urls, after.isIndex) := by
  have read : (events.map Except.ok).foldlM parser.stepRead .initial = .ok after := by
    rw [List.foldlM_map]
    exact run
  rw [parseSitemapCore, read]
  rfl

/-- A root that is one tag is passed over. -/
theorem parse_emptyTag {doc : Document} (spelled : doc.spelled = .emptyTag) :
    parser.parseSitemapCore (doc.events.map .ok) =
      (.error .invalidStructure : Except SitemapError (List (SitemapUrl floats) × Bool)) := by
  have run : doc.events.foldlM parser.step (CoreState.initial : CoreState floats) =
      .ok CoreState.initial := by
    rw [Document.events, spelled, Spelled.events, List.append_assoc]
    refine Checks.foldlM_append_ok (run_misc false doc.prolog) ?_
    exact Checks.foldlM_cons_ok rfl (run_misc false doc.epilog)
  exact parse_of_run run

def keptRoot (parser : CoreParser) (doc : Document) : Option String :=
  if parser.handleSitemapIndex then some doc.root.tag else none

theorem rooted_keptRoot (doc : Document) :
    (parser.handleSitemapIndex && (parser.keptRoot doc).isNone) = false := by
  rw [keptRoot]
  cases parser.handleSitemapIndex <;> rfl

/-- The root is classified, and opens nothing else. -/
theorem step_root (doc : Document) :
    parser.step (CoreState.initial : CoreState floats) (.start doc.root.tag) =
      .ok ⟨[], parser.keptRoot doc, parser.isIndex doc, true, .nothing, .none⟩ := by
  have foreign : doc.root.tag ∉ vocabulary := by cases doc.root <;> decide
  rw [step, classifyRoot, CoreState.initial, isIndex, keptRoot]
  cases handles : parser.handleSitemapIndex with
  | false =>
    rw [if_neg (by simp)]
    dsimp only
    rw [enter_foreign foreign]
    rfl
  | true =>
    cases root : doc.root <;> rw [root] at foreign <;>
      simp [RootName.tag] <;> exact enter_foreign foreign _

theorem parse_tags {doc : Document} {nodes : List Node} (spelled : doc.spelled = .tags nodes) :
    parser.parseSitemapCore (doc.events.map .ok) =
      .ok (nodes.filterMap (parser.readNode : Node → Option (SitemapUrl floats)), parser.isIndex doc) := by
  have foreign : doc.root.tag ∉ vocabulary := by cases doc.root <;> decide
  obtain ⟨after, ran⟩ : ∃ after, (nodes.flatMap Node.events).foldlM parser.step
      (⟨[], parser.keptRoot doc, parser.isIndex doc, true, .nothing, .none⟩ : CoreState floats) =
      .ok ⟨[] ++ nodes.filterMap parser.readNode, parser.keptRoot doc, parser.isIndex doc, true, .nothing,
        after⟩ := run_nodes (rooted_keptRoot doc) nodes
  have run : doc.events.foldlM parser.step (CoreState.initial : CoreState floats) =
      .ok ⟨nodes.filterMap parser.readNode, parser.keptRoot doc, parser.isIndex doc, true, .nothing,
        after⟩ := by
    rw [Document.events, spelled, Spelled.events, List.append_assoc, List.cons_append,
      List.cons_append, List.append_assoc]
    refine Checks.foldlM_append_ok (run_misc false doc.prolog) ?_
    refine Checks.foldlM_cons_ok (step_root doc) ?_
    refine Checks.foldlM_append_ok ran ?_
    refine Checks.foldlM_cons_ok ?_ (run_misc true doc.epilog)
    rw [step, leave_foreign foreign]
    rfl
  exact parse_of_run run

/-! ### Pieces and texts -/

variable (parser) in
/-- The pieces of the element's texts, each taken for a whole text, come to the same values: the
URL, and for a page with a URL its other fields. -/
structure ReadsWhole (floats : Floats) (item : Item) : Prop where
  url : latest parser.accepted (item.pieces .loc) = latest parser.accepted (item.texts entities .loc)
  metadata : (latest parser.accepted (item.texts entities .loc)).isSome = true → item.kind = .url →
    latest trimmed (item.pieces .lastmod) = latest trimmed (item.texts entities .lastmod) ∧
    latest (priority floats) (item.pieces .priority) =
      latest (priority floats) (item.texts entities .priority) ∧
    latest trimmed (item.pieces .changefreq) = latest trimmed (item.texts entities .changefreq)

variable (parser) in
/-- Elements that give entries: sitemaps only where an index is expected. -/
def handles (item : Item) : Prop := item.kind = .sitemap → parser.handleSitemapIndex = true

variable {entities}

theorem entryFrom_eq_iff {item : Item} :
    (parser.entryFrom item.kind item.pieces : Option (SitemapUrl floats)) =
        parser.entryFrom item.kind (item.texts entities) ↔
      (parser.handles item → parser.ReadsWhole entities floats item) := by
  obtain ⟨kind, spelled⟩ := item
  cases kind with
  | url =>
    have handled : parser.handles ⟨.url, spelled⟩ := nofun
    simp only [entryFrom, handled, true_imp_iff]
    constructor
    · intro same
      have url := congrArg (Option.map SitemapUrl.url) same
      simp only [Option.map_map] at url
      refine ⟨?_, fun accepted _ => ?_⟩
      · simpa only [Function.comp_def, Option.map_id'] using url
      · obtain ⟨url', accepted⟩ := Option.isSome_iff_exists.mp accepted
        rw [accepted, Option.map_some, Option.map_eq_some_iff] at same
        obtain ⟨_, -, same⟩ := same
        injection same with _ lastmod priority changefreq
        exact ⟨lastmod, priority, changefreq⟩
    · intro whole
      rw [whole.url]
      cases accepted : latest parser.accepted ((Item.mk .url spelled).texts entities .loc) with
      | none => rfl
      | some url =>
        obtain ⟨lastmod, priority, changefreq⟩ := whole.metadata (by rw [accepted]; rfl) rfl
        rw [Option.map_some, Option.map_some, lastmod, priority, changefreq]
  | sitemap =>
    cases handled : parser.handleSitemapIndex with
    | false =>
      have unhandled : ¬ parser.handles ⟨.sitemap, spelled⟩ := fun handles => by
        simpa [handled] using handles rfl
      simp [entryFrom, handled, unhandled]
    | true =>
      have handles : parser.handles ⟨.sitemap, spelled⟩ := fun _ => handled
      simp only [entryFrom, handled, if_true, handles, true_imp_iff]
      constructor
      · intro same
        have url := congrArg (Option.map SitemapUrl.url) same
        simp only [Option.map_map] at url
        exact ⟨by simpa only [Function.comp_def, Option.map_id'] using url, fun _ => nofun⟩
      · intro whole
        rw [whole.url]

/-- Two readings agree on every front of a list exactly where they agree on each element. -/
theorem filterMap_take_eq_iff {α β : Type} {f g : α → Option β} {l : List α} :
    (∀ n, (l.take n).filterMap f = (l.take n).filterMap g) ↔ ∀ a ∈ l, f a = g a := by
  constructor
  · intro fronts
    induction l with
    | nil => nofun
    | cons a rest ih =>
      have first : f a = g a := by
        have front := fronts 1
        simp only [List.take_succ_cons, List.take_zero, List.filterMap_cons, List.filterMap_nil] at front
        cases here : f a <;> cases there : g a <;> simp_all
      refine List.forall_mem_cons.mpr ⟨first, ih fun n => ?_⟩
      have front := fronts (n + 1)
      rw [List.take_succ_cons, List.filterMap_cons, List.filterMap_cons, first] at front
      cases there : g a with
      | none => simpa only [there] using front
      | some b => simpa only [there, List.cons.injEq, true_and] using front
  · intro same n
    exact List.filterMap_congr fun a member => same a (List.mem_of_mem_take member)

/-- Every element of a document gives the entry of its content exactly where the root is not one tag
and the pieces of each element are read as its texts. -/
theorem faithful_iff {doc : Document} :
    parser.Faithful entities floats doc ↔
      doc.spelled ≠ .emptyTag ∧
        ∀ item, Node.item item ∈ doc.nodes → parser.handles item → parser.ReadsWhole entities floats item := by
  rw [Faithful]
  cases spelled : doc.spelled with
  | emptyTag =>
    have first : doc.first 0 = doc := by rw [Document.first, spelled]
    refine iff_of_false (fun faithful => ?_) fun ⟨tags, _⟩ => tags rfl
    have parsed := faithful 0
    rw [first, parse_emptyTag spelled] at parsed
    cases parsed
  | tags nodes =>
    have parsed (n : Nat) : parser.parseSitemapCore ((doc.first n).events.map .ok) =
        .ok ((nodes.take n).filterMap (parser.readNode : Node → Option (SitemapUrl floats)),
          parser.isIndex doc) := by
      have first : doc.first n = { doc with spelled := .tags (nodes.take n) } := by
        rw [Document.first, spelled]
      rw [first]
      exact parse_tags rfl
    have entries (n : Nat) : (parser.entries entities (doc.first n) : List (SitemapUrl floats)) =
        (nodes.take n).filterMap fun
          | .item item => parser.entryFrom item.kind (item.texts entities)
          | .foreign _ => none := by
      rw [CoreParser.entries, Document.nodes, Document.first, spelled]
      rfl
    simp only [parsed, entries, Except.ok.injEq, Prod.mk.injEq, and_true, ne_eq, reduceCtorEq,
      not_false_eq_true, true_and, Document.nodes, spelled, Spelled.content]
    rw [filterMap_take_eq_iff]
    constructor
    · intro same item member
      exact entryFrom_eq_iff.mp (same _ member)
    · intro whole node member
      cases node with
      | item item => exact entryFrom_eq_iff.mpr (whole item member)
      | foreign event => rfl

/-! ### Texts in one piece -/

section Spelling

variable {α : Type} {value : String → Option α}

/-- The text of a field is in one piece: where it has a value, a piece that is read holds all of it but white
space, and none with a value stands behind; where it has none, no piece has one. -/
def InOne (value : String → Option α) (read : List String) (text : String) : Prop :=
  if text ≠ "" ∧ (value text).isSome = true then
    ∃ front piece back, read = front ++ piece :: back ∧ Text.trim piece = Text.trim text ∧
      ∀ other ∈ back, value other = none
  else ∀ piece ∈ read, value piece = none

def fields (item : Item) (name : FieldName) : List (Spelled Piece) :=
  item.spelled.content.filterMap fun
    | .field other spelled => if other = name then some spelled else none
    | .foreign _ => none

def readPieces (name : FieldName) (spelled : Spelled Piece) : List String :=
  spelled.content.filterMap (Piece.read name)

variable (entities) in
def whole (spelled : Spelled Piece) : String := String.join (spelled.content.map (Piece.content entities))

variable (parser) in
/-- The texts of an element are spelled in one piece: the addresses, and those of the other fields of a page
with an accepted address. -/
structure SpelledWhole (entities : String → String) (floats : Floats) (item : Item) : Prop where
  loc : ∀ field ∈ fields item .loc, InOne parser.accepted (readPieces .loc field) (whole entities field)
  metadata : (latest parser.accepted (item.texts entities .loc)).isSome = true → item.kind = .url →
    (∀ field ∈ fields item .lastmod, InOne trimmed (readPieces .lastmod field) (whole entities field)) ∧
    (∀ field ∈ fields item .priority,
      InOne (priority floats) (readPieces .priority field) (whole entities field)) ∧
    ∀ field ∈ fields item .changefreq, InOne trimmed (readPieces .changefreq field) (whole entities field)

/-- There is one field of the name at most, and no piece of it has the value of the whole text by chance. -/
def Unaliased (entities : String → String) (value : String → Option α) (item : Item) (name : FieldName) : Prop :=
  (fields item name).length ≤ 1 ∧ ∀ field ∈ fields item name, ∀ piece ∈ readPieces name field,
    (value piece).isSome = true → value piece = value (whole entities field) →
      Text.trim piece = Text.trim (whole entities field)

variable (parser) in
/-- Each text of an element that can be told from its pieces by the value alone. -/
structure Unmistaken (entities : String → String) (floats : Floats) (item : Item) : Prop where
  loc : Unaliased entities parser.accepted item .loc
  lastmod : Unaliased entities trimmed item .lastmod
  priority : Unaliased entities (priority floats) item .priority
  changefreq : Unaliased entities trimmed item .changefreq

theorem pieces_eq (item : Item) (name : FieldName) : item.pieces name = (fields item name).flatMap (readPieces name) := by
  rw [Item.pieces, fields]
  induction item.spelled.content with
  | nil => rfl
  | cons child rest ih =>
    rw [List.flatMap_cons, ih, List.filterMap_cons]
    cases child with
    | foreign event => rfl
    | field other spelled => by_cases same : other = name <;> simp [same, readPieces]

theorem texts_eq (item : Item) (name : FieldName) :
    item.texts entities name = ((fields item name).map (whole entities)).filter (· ≠ "") := by
  rw [Item.texts, fields]
  induction item.spelled.content with
  | nil => rfl
  | cons child rest ih =>
    rw [List.filterMap_cons, List.filterMap_cons]
    cases child with
    | foreign event => exact ih
    | field other spelled =>
      by_cases same : other = name
      · by_cases none : whole entities spelled = "" <;> simp_all [whole]
      · simpa [same] using ih

theorem latest_eq_none (texts : List String) (none : ∀ text ∈ texts, value text = Option.none) :
    latest value texts = Option.none := by
  rw [latest, List.findSome?_eq_none_iff]
  simpa using none

theorem latest_filter_singleton (text : String) :
    latest value ([text].filter (· ≠ "")) = if text = "" then none else value text := by
  by_cases empty : text = "" <;> simp [latest, empty]

theorem InOne.latest_eq (trims : ∀ {a b}, Text.trim a = Text.trim b → value a = value b) {read : List String}
    {text : String} (inOne : InOne value read text) :
    latest value read = latest value ([text].filter (· ≠ "")) := by
  rw [latest_filter_singleton]
  rw [InOne] at inOne
  split at inOne
  next valued =>
    obtain ⟨front, piece, back, rfl, same, none⟩ := inOne
    rw [latest_append, latest_cons, latest_eq_none back none, Option.none_or, trims same, if_neg valued.1]
    exact Option.or_of_isSome valued.2
  next unvalued =>
    rw [latest_eq_none _ inOne]
    split
    · rfl
    · simp_all

theorem latest_of_inOne (trims : ∀ {a b}, Text.trim a = Text.trim b → value a = value b) {item : Item}
    {name : FieldName} (inOne : ∀ field ∈ fields item name, InOne value (readPieces name field) (whole entities field)) :
    latest value (item.pieces name) = latest value (item.texts entities name) := by
  rw [pieces_eq, texts_eq]
  generalize fields item name = all at inOne
  induction all with
  | nil => rfl
  | cons field rest ih =>
    obtain ⟨first, later⟩ := List.forall_mem_cons.mp inOne
    rw [List.flatMap_cons, latest_append, ih later, first.latest_eq trims, ← latest_append, ← List.filter_append]
    rfl

theorem exists_latest {texts : List String} {a : α} (found : latest value texts = some a) :
    ∃ front piece back, texts = front ++ piece :: back ∧ value piece = some a ∧ ∀ other ∈ back, value other = none := by
  rw [latest, List.findSome?_eq_some_iff] at found
  obtain ⟨back, piece, front, reversed, valued, none⟩ := found
  refine ⟨front.reverse, piece, back.reverse, ?_, valued, by simpa using none⟩
  rw [← List.reverse_reverse texts, reversed]
  simp

theorem inOne_of_latest {item : Item} {name : FieldName} (unaliased : Unaliased entities value item name)
    (same : latest value (item.pieces name) = latest value (item.texts entities name)) :
    ∀ field ∈ fields item name, InOne value (readPieces name field) (whole entities field) := by
  rw [pieces_eq, texts_eq] at same
  obtain ⟨one, unlike⟩ := unaliased
  intro field member
  obtain ⟨other, only⟩ := List.length_eq_one_iff.mp (Nat.le_antisymm one (List.length_pos_of_mem member))
  obtain rfl : field = other := by simpa [only] using member
  rw [only, List.map_singleton, latest_filter_singleton] at same
  simp only [List.flatMap_singleton] at same
  rw [InOne]
  split
  next valued =>
    obtain ⟨a, ha⟩ := Option.isSome_iff_exists.mp valued.2
    rw [if_neg valued.1, ha] at same
    obtain ⟨front, piece, back, split, here, none⟩ := exists_latest same
    have inReads : piece ∈ readPieces name field := by rw [split]; simp
    have alike := unlike field member piece inReads (by rw [here]; rfl) (here.trans ha.symm)
    exact ⟨front, piece, back, split, alike, none⟩
  next unvalued =>
    have none : latest value (readPieces name field) = Option.none := by
      rw [same]
      split
      · rfl
      · simp_all
    rw [latest, List.findSome?_eq_none_iff] at none
    simpa using none

end Spelling

section Whole

variable {item : Item}

theorem accepted_trim {a b : String} (same : Text.trim a = Text.trim b) : parser.accepted a = parser.accepted b := by
  rw [accepted, accepted, readLoc, readLoc, same]

theorem trimmed_trim {a b : String} (same : Text.trim a = Text.trim b) : trimmed a = trimmed b := by
  rw [trimmed, trimmed, same]

theorem priority_trim {a b : String} (same : Text.trim a = Text.trim b) :
    priority floats a = priority floats b := by
  rw [priority, priority, same]

theorem SpelledWhole.readsWhole (spelled : parser.SpelledWhole entities floats item) :
    parser.ReadsWhole entities floats item where
  url := latest_of_inOne accepted_trim spelled.loc
  metadata accepted page := by
    obtain ⟨lastmod, priority, changefreq⟩ := spelled.metadata accepted page
    exact ⟨latest_of_inOne trimmed_trim lastmod, latest_of_inOne priority_trim priority,
      latest_of_inOne trimmed_trim changefreq⟩

theorem ReadsWhole.spelledWhole (whole : parser.ReadsWhole entities floats item)
    (told : parser.Unmistaken entities floats item) : parser.SpelledWhole entities floats item where
  loc := inOne_of_latest told.loc whole.url
  metadata accepted page := by
    obtain ⟨lastmod, priority, changefreq⟩ := whole.metadata accepted page
    exact ⟨inOne_of_latest told.lastmod lastmod, inOne_of_latest told.priority priority,
      inOne_of_latest told.changefreq changefreq⟩

end Whole

variable (parser entities) in
/-- The root is not one tag, and the elements that give entries are spelled whole. -/
def WellSpelled (floats : Floats) (doc : Document) : Prop :=
  doc.spelled ≠ .emptyTag ∧
    ∀ item, Node.item item ∈ doc.nodes → parser.handles item → parser.SpelledWhole entities floats item

end CoreParser

/-! A page whose address has two parameters. -/

namespace TwoParameters

def crate : UrlCrate where
  parse url := if (Text.stripPrefix url "https://").isSome then .ok url else .error "relative"
  join _ reference := some ("https://a.org/" ++ reference)
  scheme _ := "https"
  hostStr _ := some "a.org"
  path _ := "/x"

def pageParser : CoreParser := ⟨crate, "https://a.org/sitemap.xml", true, true⟩

def predefined (name : String) : String := if name = "amp" then "&" else ""

def loc (pieces : List Piece) : Child := .field .loc (.tags pieces)

def document (pieces : List Piece) : Document :=
  ⟨[], .urlset, .tags [.item ⟨.url, .tags [loc pieces]⟩], []⟩

/-- `https://a.org/x?a=1&amp;b=2`. -/
def address : List Piece := [.text "https://a.org/x?a=1", .reference "amp", .text "b=2"]

def emptyRoot : Document := ⟨[], .urlset, .emptyTag, []⟩

def parsed (doc : Document) : Except SitemapError (List String) :=
  (pageParser.parseSitemapCore (doc.events.map .ok)).map fun result =>
    (result.1 : List (SitemapUrl wholeNumbers)).map SitemapUrl.url

def cdataAddress : List Piece := [.text " ", .cdata "https://a.org/x?a=1&b=2", .comment, .reference "space"]

end TwoParameters

end Webfang.Sitemap
