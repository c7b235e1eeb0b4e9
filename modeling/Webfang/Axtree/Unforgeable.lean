import Webfang.Axtree.SnapshotLines

/-!
# What the page can put into a snapshot

Where roles and texts of properties can be written as they are, a snapshot has one line for each node with one
reference, and shows what the nodes show. Of any other stock of strings that holds the parts of its strings
there are nodes whose snapshot does not.
-/
namespace Webfang.Axtree

open Library Segments QuotedText

variable {κ : Type} {asRef : κ → String} {jsonText : Json → String} {toLowercase : String → String}

/-! ### Reading a line back -/

variable (asRef) in
/-- What may stand behind a bracket: nothing, another one or the value. -/
inductive Behind : List Char → Prop
  | none : Behind []
  | bracket (key : κ) (tail : List Char) : Behind (" [".toList ++ ((asRef key).toList ++ tail))
  | value (tail : List Char) : Behind (" [value=\"".toList ++ tail)

theorem bracket_cases (key text : String) (rest : List Char) :
    ∃ c tail, bracket key text ++ rest = '[' :: (key.toList ++ c :: tail) ∧
      ((c = ']' ∧ text = "" ∧ tail = rest) ∨ (c = '=' ∧ text ≠ "" ∧ tail = text.toList ++ ']' :: rest)) := by
  by_cases empty : text = ""
  · exact ⟨']', rest, by simp [bracket, empty], .inl ⟨rfl, empty, rfl⟩⟩
  · exact ⟨'=', text.toList ++ ']' :: rest, by simp [bracket, empty], .inr ⟨rfl, empty, rfl⟩⟩

theorem behind_brackets (properties : List (κ × String)) (value : String) :
    Behind asRef (brackets asRef properties ++ valueBracket value) := by
  cases properties with
  | nil =>
    by_cases empty : value = ""
    · rw [valueBracket, if_pos empty]
      exact .none
    · rw [valueBracket, if_neg empty]
      exact .value _
  | cons property rest =>
    obtain ⟨c, tail, form, -⟩ :=
      bracket_cases (asRef property.1) property.2 (brackets asRef rest ++ valueBracket value)
    rw [brackets_cons, form]
    exact .bracket property.1 _

/-- A text that can be written as it is does not go on behind its bracket. -/
theorem PlainProperty.ends (names : PropertyNames asRef) {text : String}
    {front longer rest behind : List Char}
    (plain : PlainProperty asRef text) (nonempty : front ≠ []) (split : text.toList = front ++ longer)
    (next : Behind asRef rest) (same : ']' :: rest = longer ++ ']' :: behind) : longer = [] := by
  cases longer with
  | nil => rfl
  | cons c more =>
    obtain ⟨rfl, inner⟩ := List.cons.inj same
    exfalso
    cases next with
    | none => simp at inner
    | bracket key tail =>
      -- the text would hold the end of its bracket and the start of the next one
      have word : ']' ∉ " [".toList ++ (asRef key).toList := by simp [names.notMem key (c := ']') (by decide)]
      rw [← List.append_assoc] at inner
      obtain ⟨after, rfl⟩ := prefix_of_notMem word inner.symm
      refine plain.whole (front.getLast nonempty) key ⟨front.dropLast, after, ?_⟩
      rw [split]
      conv_rhs => rw [← List.dropLast_append_getLast nonempty]
      simp
    | value tail =>
      have word : ']' ∉ " [value=\"".toList := by decide
      obtain ⟨after, rfl⟩ := prefix_of_notMem word inner.symm
      refine plain.unquoted ?_
      rw [split]
      simp

theorem text_inj (names : PropertyNames asRef) {text other : String} {rest rest' : List Char}
    (plain : PlainProperty asRef text) (plain' : PlainProperty asRef other) (nonempty : text ≠ "")
    (nonempty' : other ≠ "") (next : Behind asRef rest) (next' : Behind asRef rest')
    (same : text.toList ++ ']' :: rest = other.toList ++ ']' :: rest') : text = other ∧ rest = rest' := by
  rcases List.append_eq_append_iff.mp same with ⟨longer, split, behind⟩ | ⟨longer, split, behind⟩
  · have none := plain'.ends names (by simpa using nonempty) split next behind
    subst none
    exact ⟨String.toList_inj.mp (by simpa using split.symm), (List.cons.inj behind).2⟩
  · have none := plain.ends names (by simpa using nonempty') split next' behind
    subst none
    exact ⟨String.toList_inj.mp (by simpa using split), (List.cons.inj behind).2.symm⟩

theorem bracket_inj (names : PropertyNames asRef) {property other : κ × String} {rest rest' : List Char}
    (plain : PlainProperty asRef property.2) (plain' : PlainProperty asRef other.2) (next : Behind asRef rest)
    (next' : Behind asRef rest')
    (same : bracket (asRef property.1) property.2 ++ rest = bracket (asRef other.1) other.2 ++ rest') :
    property = other ∧ rest = rest' := by
  obtain ⟨c, tail, form, kind⟩ := bracket_cases (asRef property.1) property.2 rest
  obtain ⟨d, tail', form', kind'⟩ := bracket_cases (asRef other.1) other.2 rest'
  have ends : c.isAlpha = false := by rcases kind with ⟨rfl, -⟩ | ⟨rfl, -⟩ <;> rfl
  have ends' : d.isAlpha = false := by rcases kind' with ⟨rfl, -⟩ | ⟨rfl, -⟩ <;> rfl
  rw [form, form'] at same
  obtain ⟨word, rfl, tails⟩ :=
    split_at_word (names.letters property.1) (names.letters other.1) ends ends' (List.cons.inj same).2
  have key : property.1 = other.1 := names.injective (String.toList_inj.mp word)
  rcases kind with ⟨rfl, empty, rfl⟩ | ⟨rfl, nonempty, rfl⟩
  · rcases kind' with ⟨-, empty', rfl⟩ | ⟨absurd', -⟩
    · exact ⟨Prod.ext key (empty.trans empty'.symm), tails⟩
    · exact absurd absurd' (by decide)
  · rcases kind' with ⟨absurd', -⟩ | ⟨-, nonempty', rfl⟩
    · exact absurd absurd' (by decide)
    · obtain ⟨text, behind⟩ := text_inj names plain plain' nonempty nonempty' next next' tails
      exact ⟨Prod.ext key text, behind⟩

theorem valueBracket_inj {value other : String} (same : valueBracket value = valueBracket other) :
    value = other := by
  unfold valueBracket at same
  split at same
  next empty =>
    split at same
    next empty' => rw [empty, empty']
    next => cases same
  next =>
    split at same
    next => cases same
    next =>
      exact (escapeName_inj (List.append_cancel_left same)).1

/-- The brackets at the end of a line show the properties and the value. -/
theorem brackets_inj (names : PropertyNames asRef) {properties others : List (κ × String)}
    {value value' : String} (plain : ∀ property ∈ properties, PlainProperty asRef property.2)
    (plain' : ∀ property ∈ others, PlainProperty asRef property.2)
    (same : brackets asRef properties ++ valueBracket value = brackets asRef others ++ valueBracket value') :
    properties = others ∧ value = value' := by
  -- a bracket of a property is not the value, nor is it missing
  have apart (property : κ × String) (rest : List Char) (value : String) :
      valueBracket value ≠ ' ' :: (bracket (asRef property.1) property.2 ++ rest) := by
    intro equal
    obtain ⟨c, tail, form, other⟩ := bracket_cases (asRef property.1) property.2 rest
    have ends : c.isAlpha = false := by rcases other with ⟨rfl, -⟩ | ⟨rfl, -⟩ <;> rfl
    rw [form] at equal
    unfold valueBracket at equal
    split at equal
    next => cases equal
    next =>
      have shown : "value".toList ++ '=' :: '"' :: (escapeName value ++ "\"]".toList) =
          (asRef property.1).toList ++ c :: tail := (List.cons.inj (List.cons.inj equal).2).2
      have word :=
        (split_at_word (forall_of_all (by decide)) (names.letters property.1) (by decide) ends shown).1
      exact (names.apart property.1).2 (String.toList_inj.mp word.symm)
  induction properties generalizing others with
  | nil =>
    cases others with
    | nil => exact ⟨rfl, valueBracket_inj same⟩
    | cons property rest =>
      rw [brackets_cons] at same
      exact absurd same (apart property _ value)
  | cons property rest ih =>
    cases others with
    | nil =>
      rw [brackets_cons] at same
      exact absurd same.symm (apart property _ value')
    | cons other rest' =>
      rw [brackets_cons, brackets_cons] at same
      obtain ⟨equal, behind⟩ :=
        bracket_inj names (plain property List.mem_cons_self) (plain' other List.mem_cons_self)
        (behind_brackets rest value) (behind_brackets rest' value') (List.cons.inj same).2
      obtain ⟨rfl, rfl⟩ := ih (fun p member => plain p (List.mem_cons_of_mem _ member))
        (fun p member => plain' p (List.mem_cons_of_mem _ member)) behind
      rw [equal]
      exact ⟨rfl, rfl⟩

theorem line_inj (names : PropertyNames asRef) {refCount : Nat} {texts texts' : NodeTexts κ}
    (plain : texts.Plain asRef)
    (plain' : texts'.Plain asRef) (same : texts.line asRef refCount = texts'.line asRef refCount) :
    texts = texts' := by
  have parts (texts : NodeTexts κ) : texts.line asRef refCount =
      "- ".toList ++ ((texts.role.toList ++ [' ']) ++ '"' ::
      (escapeName texts.name ++ '"' :: ((" [ref=".toList ++ (axReference refCount ++ [']'])) ++
        (brackets asRef texts.properties ++ valueBracket texts.value)))) := by
    simp [NodeTexts.line]
  have unquoted {texts : NodeTexts κ} (plain : texts.Plain asRef) :
      ∀ c ∈ texts.role.toList ++ [' '], (c != '"') = true := by
    intro c member
    rw [bne_iff_ne]
    rintro rfl
    rcases List.mem_append.mp member with inside | space
    · exact plain.role.unquoted inside
    · cases List.mem_singleton.mp space
  rw [parts, parts] at same
  obtain ⟨roles, -, behind⟩ := split_at_word (unquoted plain) (unquoted plain') (by decide) (by decide)
    (List.append_cancel_left same)
  obtain ⟨named, rest⟩ := escapeName_inj behind
  obtain ⟨properties, value⟩ :=
    brackets_inj names plain.properties plain'.properties (List.append_cancel_left rest)
  exact NodeTexts.ext (String.toList_inj.mp (List.append_cancel_right roles)) named properties value

theorem segments_content (names : PropertyNames asRef) (refCount : Nat) {texts : NodeTexts κ}
    (flat : texts.Flat) (rest : List (NodeTexts κ)) :
    segments '\n' (content asRef refCount (texts :: rest)) =
      (texts.line asRef (refCount + 1) ++ ['\n']) :: segments '\n' (content asRef (refCount + 1) rest) := by
  have line := (newline_notMem_line names (refCount + 1) texts).mpr flat
  rw [content, show '\n' :: content asRef (refCount + 1) rest =
      ['\n'] ++ content asRef (refCount + 1) rest from rfl,
    ← List.append_assoc, segments_append _ (.inr ⟨_, rfl⟩), segments_line line]
  rfl

theorem segments_content_get (names : PropertyNames asRef) {shown : List (NodeTexts κ)}
    (flat : ∀ texts ∈ shown, texts.Flat) (refCount k : Nat) :
    (segments '\n' (content asRef refCount shown))[k]? =
      shown[k]?.map fun texts => texts.line asRef (refCount + k + 1) ++ ['\n'] := by
  induction shown generalizing refCount k with
  | nil => simp [content, segments]
  | cons texts rest ih =>
    rw [segments_content names refCount (flat texts List.mem_cons_self)]
    cases k with
    | zero => rfl
    | succ k =>
      rw [List.getElem?_cons_succ, List.getElem?_cons_succ,
        ih (fun other member => flat other (List.mem_cons_of_mem _ member)), Nat.add_right_comm refCount 1 k]
      rfl

theorem content_inj (names : PropertyNames asRef) {shown shown' : List (NodeTexts κ)}
    (plain : ∀ texts ∈ shown, texts.Plain asRef) (plain' : ∀ texts ∈ shown', texts.Plain asRef)
    (same : content asRef 0 shown = content asRef 0 shown') : shown = shown' := by
  apply List.ext_getElem?
  intro k
  have lines := segments_content_get names (fun texts member => (plain texts member).flat) 0 k
  rw [same, segments_content_get names (fun texts member => (plain' texts member).flat)] at lines
  cases first : shown[k]? with
  | none =>
    cases second : shown'[k]? with
    | none => rfl
    | some texts' => simp [first, second] at lines
  | some texts =>
    cases second : shown'[k]? with
    | none => simp [first, second] at lines
    | some texts' =>
      simp only [first, second, Option.map_some, Option.some.injEq] at lines
      have here := plain texts (List.mem_of_getElem? first)
      have here' := plain' texts' (List.mem_of_getElem? second)
      rw [line_inj names here here' (List.append_cancel_right lines.symm)]

/-! ### Legible snapshots -/

def PlaywrightSnapshot.lines (snapshot : PlaywrightSnapshot) : List (List Char) :=
  segments '\n' snapshot.content.toList

variable (asRef jsonText toLowercase) in
/-- A snapshot has as many lines as references, and the line of each kept node stands at its place and holds
its reference as the only one outside of quoted text. -/
structure Request.Legible (x : Request κ) : Prop where
  count : (x.snapshot asRef jsonText toLowercase).lines.length =
    (x.snapshot asRef jsonText toLowercase).refCount
  counted : (x.snapshot asRef jsonText toLowercase).refCount =
    (kept toLowercase x.nodes x.interactiveOnly x.selector).length
  line {k : Nat} {node : AxNode κ}
    (stands : (kept toLowercase x.nodes x.interactiveOnly x.selector)[k]? = some node) :
    (x.snapshot asRef jsonText toLowercase).lines[k]? =
      some (renderNode asRef jsonText (k + 1) node ++ ['\n']) ∧
      markers opening ']' (outside false (renderNode asRef jsonText (k + 1) node)) = [axReference (k + 1)]

variable (asRef jsonText toLowercase) in
/-- Where kept nodes show something else, the contents differ. -/
def Request.Told (x y : Request κ) : Prop :=
  x.shown jsonText toLowercase ≠ y.shown jsonText toLowercase →
    (x.snapshot asRef jsonText toLowercase).content ≠ (y.snapshot asRef jsonText toLowercase).content

variable (asRef jsonText toLowercase) in
def Request.Plain (x : Request κ) : Prop := ∀ texts ∈ x.shown jsonText toLowercase, texts.Plain asRef

theorem Request.Plain.legible (names : PropertyNames asRef) {x : Request κ}
    (plain : x.Plain asRef jsonText toLowercase) :
    x.Legible asRef jsonText toLowercase := by
  obtain ⟨written, counted⟩ := x.snapshot_eq asRef jsonText toLowercase
  have flat : ∀ texts ∈ x.shown jsonText toLowercase, texts.Flat :=
    fun texts member => (plain texts member).flat
  constructor
  · exact (x.lines_iff names).mpr flat
  · rw [counted, Request.shown, List.length_map]
  · intro k node stands
    have shown : (x.shown jsonText toLowercase)[k]? = some (node.texts jsonText) := by
      rw [Request.shown, List.getElem?_map, stands, Option.map_some]
    rw [renderNode_eq]
    constructor
    · rw [PlaywrightSnapshot.lines, written, segments_content_get names flat, shown, Option.map_some,
        Nat.zero_add]
    · exact markers_line names (k + 1) (plain _ (List.mem_of_getElem? shown))

theorem Request.Plain.told (names : PropertyNames asRef) {x y : Request κ}
    (plain : x.Plain asRef jsonText toLowercase)
    (plain' : y.Plain asRef jsonText toLowercase) : x.Told asRef jsonText toLowercase y := by
  intro differ same
  have written := (x.snapshot_eq asRef jsonText toLowercase).1
  have written' := (y.snapshot_eq asRef jsonText toLowercase).1
  rw [same, written'] at written
  exact differ (content_inj names plain plain' written.symm)

/-! ### Stocks of strings -/

/-- Strings among which are their parts. -/
structure Stock (strings : String → Prop) : Prop where
  empty : strings ""
  part {s t : String} (whole : strings s) (inside : t.toList <:+: s.toList) : strings t

/-- The roles and the texts of properties come from two stocks. -/
def Request.Drawn (jsonText : Json → String) (toLowercase : String → String)
    (roles properties : String → Prop) (x : Request κ) : Prop :=
  ∀ texts ∈ x.shown jsonText toLowercase, roles texts.role ∧
      ∀ property ∈ texts.properties, properties property.2

def textNode (role : String) (properties : List (κ × String)) (value : String) : AxNode κ where
  ignored := false
  role := some ⟨some (.str role)⟩
  name := none
  value := some ⟨some (.str value)⟩
  properties := some (properties.map fun property => ⟨property.1, ⟨some (.str property.2)⟩⟩)

def single (role : String) (properties : List (κ × String)) (value : String) : Request κ :=
  ⟨[textNode role properties value], false, none⟩

theorem shownText_str (text : String) : shownText jsonText ⟨some (.str text)⟩ = text := by
  unfold shownText
  split
  next empty => exact empty.symm
  next => rfl

theorem texts_textNode (role : String) (properties : List (κ × String)) (value : String) :
    (textNode role properties value).texts jsonText = ⟨role, "", properties, value⟩ := by
  simp [AxNode.texts, textNode, axValueStr, Json.asStr, shownText_str, Function.comp_def]

section Single

variable {role : String} (ordinary : eqIgnoreAsciiCase role "genericcontainer" = false)
  (properties : List (κ × String)) (value : String)

include ordinary

theorem kept_single :
    kept toLowercase (single role properties value).nodes false none = [textNode role properties value] := by
  have shown : axValueStr (some ⟨some (.str role)⟩) = role := rfl
  have stays : keeps toLowercase false none (textNode role properties value) = true := by
    simp [keeps, textNode, shown, ordinary]
  exact List.filter_cons_of_pos stays

theorem shown_single :
    (single role properties value).shown jsonText toLowercase = [⟨role, "", properties, value⟩] := by
  have stays : kept toLowercase (single role properties value).nodes false none =
      [textNode role properties value] := kept_single ordinary properties value
  have texts : (textNode role properties value).texts jsonText = ⟨role, "", properties, value⟩ :=
    texts_textNode role properties value
  rw [Request.shown, ← texts]
  exact congrArg (List.map (AxNode.texts jsonText)) stays

end Single

theorem drawn_single {roles properties : String → Prop} {role : String}
    (ordinary : eqIgnoreAsciiCase role "genericcontainer" = false) {shown : List (κ × String)}
    (value : String)
    (fromRoles : roles role) (fromProperties : ∀ property ∈ shown, properties property.2) :
    (single role shown value).Drawn jsonText toLowercase roles properties := by
  intro texts member
  rw [shown_single ordinary, List.mem_singleton] at member
  subst member
  exact ⟨fromRoles, fromProperties⟩

/-- A legible snapshot of one node is one line without a line break, and holds one reference. -/
theorem legible_single (names : PropertyNames asRef) {role : String}
    (ordinary : eqIgnoreAsciiCase role "genericcontainer" = false) {properties : List (κ × String)}
    {value : String} (legible : (single role properties value).Legible asRef jsonText toLowercase) :
    NodeTexts.Flat (κ := κ) ⟨role, "", properties, value⟩ ∧
      markers opening ']' (outside false (NodeTexts.line asRef 1 ⟨role, "", properties, value⟩)) =
        [axReference 1] := by
  constructor
  · have flat := ((single role properties value).lines_iff names).mp legible.count
    rw [shown_single ordinary] at flat
    exact flat _ List.mem_cons_self
  · have stands : (kept toLowercase (single role properties value).nodes false none)[0]? =
        some (textNode role properties value) := by
      rw [kept_single ordinary]
      rfl
    have reference := (legible.line stands).2
    rw [renderNode_eq, texts_textNode] at reference
    exact reference

theorem mem_references {word : List Char} (flat : ']' ∉ word) (front back : List Char) :
    word ∈ markers opening ']' (front ++ (opening ++ (word ++ ']' :: back))) :=
  mem_markers (by decide) flat front back

/-- A quotation mark in a text of a property opens the quoted value. -/
theorem forged_by_quote (names : PropertyNames asRef) (key : κ) :
    "e9".toList ∈ markers opening ']'
      (outside false (NodeTexts.line asRef 1 ⟨"", "", [(key, "\"")], "[ref=e9]"⟩)) := by
  have form : NodeTexts.line asRef 1 ⟨"", "", [(key, "\"")], "[ref=e9]"⟩ =
      "-  ".toList ++ '"' :: ([] ++ '"' :: ((" [ref=e1] [".toList ++ ((asRef key).toList ++ ['='])) ++
        '"' :: ("] [value=".toList ++ '"' :: ("[ref=e9]".toList ++ "\"]".toList)))) := by
    simp [NodeTexts.line, brackets, bracket, valueBracket, axReference, escapeName, escapeChar]
    rfl
  have unquoted : '"' ∉ " [ref=e1] [".toList ++ ((asRef key).toList ++ ['=']) := by
    simp [names.notMem key (c := '"') (by decide)]
  have plain : ∀ c ∈ "] [value=".toList, c ≠ '"' ∧ c ≠ '\\' := forall_of_all (by decide)
  rw [form, outside_plain (by decide), outside_quoted .nil, outside_plain unquoted,
    outside_quoted (.of_plain plain),
    outside_plain (by decide)]
  have found : "e9".toList ∈ markers opening ']'
      (("-  \"\" [ref=e1] [".toList ++ ((asRef key).toList ++ "=\"\"".toList)) ++
      (opening ++ ("e9".toList ++ ']' :: outside false "\"]".toList))) := mem_references (by decide) _ _
  simpa [opening] using found

/-- A text of a property that opens a reference makes another one. -/
theorem forged_by_opening (names : PropertyNames asRef) (key : κ) :
    [] ∈ markers opening ']' (outside false (NodeTexts.line asRef 1 ⟨"", "", [(key, "[ref=")], ""⟩)) := by
  rw [outside_line names 1 (by simp) (by simp)]
  have form : brackets asRef [(key, "[ref=")] ++ valueFrame "" =
      " [".toList ++ ((asRef key).toList ++ ('=' :: (opening ++ ([] ++ [']'])))) := by
    simp [brackets, bracket, valueFrame, opening]
  have found : [] ∈ markers opening ']' (("-  \"\" [ref=e1] [".toList ++ ((asRef key).toList ++ ['='])) ++
      (opening ++ ([] ++ [']']))) := mem_references (by decide) _ _
  dsimp only
  rw [form, show axReference 1 = "e1".toList from rfl]
  simpa [opening] using found

/-- A text of a property that ends its bracket shows two properties. -/
theorem brackets_split (c : Char) (key other : κ) (behind : List Char) :
    brackets asRef [(key, String.ofList (c :: ("] [".toList ++ (asRef other).toList)))] ++ behind =
      brackets asRef [(key, String.ofList [c]), (other, "")] ++ behind := by
  simp [brackets, bracket]

theorem line_bare (role : String) :
    NodeTexts.line asRef 1 ⟨role, "", [], ""⟩ = "- ".toList ++ (role.toList ++ " \"\" [ref=e1]".toList) := rfl

section Necessary

variable {roles properties : String → Prop} (names : PropertyNames asRef) (stock : Stock roles)
  (claimed : ∀ x y : Request κ, x.Drawn jsonText toLowercase roles properties →
    y.Drawn jsonText toLowercase roles properties →
    x.Legible asRef jsonText toLowercase ∧ x.Told asRef jsonText toLowercase y)

include names stock claimed

/-- What a role may not hold is itself a role of the stock, and a node with it goes wrong. -/
theorem role_plain {role : String} (drawn : roles role) : PlainRole role := by
  have legible (part : String) (inside : part.toList <:+: role.toList)
      (ordinary : eqIgnoreAsciiCase part "genericcontainer" = false) :=
    have request : (single (κ := κ) part [] "").Drawn jsonText toLowercase roles properties :=
      drawn_single ordinary "" (stock.part drawn inside) (by simp)
    legible_single names ordinary (claimed _ _ request request).1
  constructor
  · intro inside
    have part : "\n".toList <:+: role.toList := (List.singleton_infix_iff ..).mpr inside
    exact absurd (show '\n' ∈ "\n".toList by decide) (legible _ part (by decide)).1.1
  · intro inside
    have part : "\"".toList <:+: role.toList := (List.singleton_infix_iff ..).mpr inside
    have reference := (legible _ part (by decide)).2
    rw [line_bare] at reference
    exact absurd reference (by decide)
  · intro inside
    have reference := (legible "[ref=" inside (by decide)).2
    rw [line_bare] at reference
    exact absurd reference (by decide)

theorem property_plain (stock' : Stock properties) {text : String} (drawn : properties text) :
    PlainProperty asRef text := by
  have ordinary : eqIgnoreAsciiCase "" "genericcontainer" = false := by decide
  obtain ⟨key⟩ := names.nonempty
  have request {parts : List (κ × String)} (value : String) (fromText : ∀ part ∈ parts, properties part.2) :
      (single "" parts value).Drawn jsonText toLowercase roles properties :=
    drawn_single ordinary value stock.empty fromText
  have legible (part value : String) (inside : part.toList <:+: text.toList) :=
    have alone : ∀ property ∈ [(key, part)], properties property.2 := by simpa using stock'.part drawn inside
    legible_single names ordinary (claimed _ _ (request value alone) (request value alone)).1
  constructor
  · intro inside
    have part : "\n".toList <:+: text.toList := (List.singleton_infix_iff ..).mpr inside
    exact absurd (show '\n' ∈ "\n".toList by decide) ((legible _ "" part).1.2 _ List.mem_cons_self)
  · intro inside
    have part : "\"".toList <:+: text.toList := (List.singleton_infix_iff ..).mpr inside
    have forged := forged_by_quote names key
    rw [(legible _ "[ref=e9]" part).2] at forged
    exact absurd forged (by decide)
  · intro inside
    have forged := forged_by_opening names key
    rw [(legible "[ref=" "" inside).2] at forged
    exact absurd forged (by decide)
  · intro c other inside
    -- the text as one property, and its front and the other name as two
    have whole : properties (String.ofList (c :: ("] [".toList ++ (asRef other).toList))) :=
      stock'.part drawn (by simpa using inside)
    have front : properties (String.ofList [c]) := by
      apply stock'.part whole
      rw [String.toList_ofList, String.toList_ofList]
      exact ⟨[], "] [".toList ++ (asRef other).toList, rfl⟩
    have one : ∀ property ∈ [(key, String.ofList (c :: ("] [".toList ++ (asRef other).toList)))],
        properties property.2 := by simpa using whole
    have two : ∀ property ∈ [(key, String.ofList [c]), (other, "")], properties property.2 := by
      simpa using ⟨front, stock'.empty⟩
    have told := (claimed _ _ (request "" one) (request "" two)).2
    unfold Request.Told at told
    rw [shown_single ordinary, shown_single ordinary] at told
    refine told (by simp) (String.toList_inj.mp ?_)
    rw [(Request.snapshot_eq asRef jsonText toLowercase _).1,
      (Request.snapshot_eq asRef jsonText toLowercase _).1,
      shown_single ordinary, shown_single ordinary]
    simp only [content, NodeTexts.line, brackets_split c key other]

end Necessary

/-! ### What the page can forge -/

/-- Where the roles and the texts of properties of two lists of kept nodes can be written as they are, their
snapshots are legible and differ where the lists show something else. There are as many lines as references
exactly if no role and no text of a property holds a line break. And for two stocks of strings that hold the
parts of their strings, all snapshots are legible and tell the lists apart exactly if each string can be
written as it is. -/
theorem unforgeable_iff_plain (names : PropertyNames asRef) :
    (∀ x y : Request κ, x.Plain asRef jsonText toLowercase → y.Plain asRef jsonText toLowercase →
      x.Legible asRef jsonText toLowercase ∧ x.Told asRef jsonText toLowercase y) ∧
    (∀ x : Request κ, (x.snapshot asRef jsonText toLowercase).lines.length =
        (x.snapshot asRef jsonText toLowercase).refCount ↔
      ∀ texts ∈ x.shown jsonText toLowercase, texts.Flat) ∧
    ∀ roles properties : String → Prop, Stock roles → Stock properties →
      ((∀ x y : Request κ, x.Drawn jsonText toLowercase roles properties →
          y.Drawn jsonText toLowercase roles properties →
          x.Legible asRef jsonText toLowercase ∧ x.Told asRef jsonText toLowercase y) ↔
        (∀ role, roles role → PlainRole role) ∧ ∀ text, properties text → PlainProperty asRef text) := by
  have enough (x y : Request κ) (plain : x.Plain asRef jsonText toLowercase)
      (plain' : y.Plain asRef jsonText toLowercase) :
      x.Legible asRef jsonText toLowercase ∧ x.Told asRef jsonText toLowercase y :=
    ⟨plain.legible names, plain.told names plain'⟩
  refine ⟨enough, fun x => x.lines_iff names, fun roles properties stock stock' => ⟨?_, ?_⟩⟩
  · intro claimed
    exact ⟨fun role => role_plain names stock claimed, fun text => property_plain names stock claimed stock'⟩
  · rintro ⟨role, property⟩ x y drawn drawn'
    have plain {x : Request κ} (drawn : x.Drawn jsonText toLowercase roles properties) :
        x.Plain asRef jsonText toLowercase := by
      intro texts member
      obtain ⟨fromRoles, fromProperties⟩ := drawn texts member
      exact ⟨role _ fromRoles, fun p inside => property _ (fromProperties p inside)⟩
    exact enough x y (plain drawn) (plain drawn')

namespace SnapshotRuns

/-- Two names of properties. -/
def nameOf : Bool → String
  | true => "level"
  | false => "valuetext"

theorem names : PropertyNames nameOf where
  nonempty := ⟨true⟩
  injective := by
    unfold Function.Injective
    decide
  letters := by
    intro key
    cases key <;> exact forall_of_all (by decide)
  apart := by decide

def boolText : Json → String
  | .bool b => toString b
  | _ => "null"

def heading : Request Bool := single "heading" [(true, "1")] ""

theorem heading_legible : heading.Legible nameOf boolText id := by
  have plain : heading.Plain nameOf boolText id := by
    intro texts member
    rw [heading, shown_single (by decide), List.mem_singleton] at member
    subst member
    refine ⟨⟨by decide, by decide, by decide⟩, ?_⟩
    intro property inside
    obtain rfl := List.mem_singleton.mp inside
    refine ⟨by decide, by decide, by decide, ?_⟩
    intro c key within
    have short := within.length_le
    simp at short
  exact ((unforgeable_iff_plain names).1 heading heading plain plain).1

/-- A slider whose text for its value has a line break and a reference. -/
def forged : Request Bool := single "slider" [(false, "low]\n- button \"Pay\" [ref=e9")] ""

/-- One node makes two lines, each with a reference. -/
theorem forged_illegible : (forged.snapshot nameOf boolText id).content =
      "- slider \"\" [ref=e1] [valuetext=low]\n- button \"Pay\" [ref=e9]\n" ∧
    (forged.snapshot nameOf boolText id).refCount = 1 ∧ ¬ forged.Legible nameOf boolText id := by
  refine ⟨by decide, by decide, ?_⟩
  intro legible
  exact absurd legible.count (by decide)

end SnapshotRuns

end Webfang.Axtree
