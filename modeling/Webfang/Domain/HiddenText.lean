import Webfang.Domain.PruneRun

/-!
# Hidden text

Which texts of a document `prune_dom` leaves. A pattern takes what stands behind the tag of a hidden element up
to the first closing tag of a listed kind, its own or that of an element in it. What stands in the hidden
element behind that is out of reach.
-/
namespace Webfang.Domain.DomPruner

open Library Text Backtrack Sweep

/-- A text whose characters count. -/
def counted (counts : List Char → Bool) (piece : Piece) : Bool :=
  match piece.token with
  | .text chars => counts chars
  | .opening _ => false
  | .closing _ => false

def isText : Piece → Bool := counted fun _ => true

def notBlank (chars : List Char) : Bool := !chars.all isWhitespace

/-- A text that is not only white space. -/
def hasText : Piece → Bool := counted notBlank

/-! ### Documents that tell -/

/-- The pattern of a style matches at the front of a tag. -/
def seems (property value : String) (name : TagName) (attributes : List Attribute) : Bool :=
  !((seqs (hiddenFront property value)).rests (tagText name attributes)).isEmpty

def seemsHidden (name : TagName) (attributes : List Attribute) : Bool :=
  seems "display" "none" name attributes || seems "visibility" "hidden" name attributes

def endsListed (name : TagName) : Bool := takesAll listedTag name.chars

mutual

/-- A closing tag of a listed kind is among the tags of the node. -/
def Html.hasListed : Html → Bool
  | .text _ _ => false
  | .void _ _ _ => false
  | .element name _ children => endsListed name || hasListedAll children

def hasListedAll : List Html → Bool
  | [] => false
  | node :: nodes => node.hasListed || hasListedAll nodes

end

mutual

/-- The tags that seem hidden are those of hidden elements, as far as a closing tag of a listed kind stands
behind them, one that follows the node or one of its own. -/
def Html.tells (follows : Bool) : Html → Bool
  | .text _ _ => true
  | .void name attributes _ => !follows || !seemsHidden name attributes
  | .element name attributes children =>
    let within := endsListed name || follows
    (!(hasListedAll children || within) || seemsHidden name attributes == hiddenElement name attributes) &&
      tellsAll within children

def tellsAll (follows : Bool) : List Html → Bool
  | [] => true
  | node :: nodes => node.tells (hasListedAll nodes || follows) && tellsAll follows nodes

end

/-! ### Reach -/

/-- Which hidden elements at a place of a document are still open to the patterns. -/
structure Reach where
  display : Bool
  visibility : Bool

def Reach.covers (reach : Reach) : Bool := reach.display || reach.visibility

/-- A hidden element is in the reach of a pattern from its tag on. -/
def Reach.opened (reach : Reach) (name : TagName) (attributes : List Attribute) : Reach :=
  if reach.display || !hiddenElement name attributes then reach
  else if seems "display" "none" name attributes then { reach with display := true }
  else { reach with visibility := true }

/-- The first element of a listed kind that ends in a hidden one takes it out of reach. -/
def Reach.closed (reach : Reach) (name : TagName) : Reach :=
  if !endsListed name then reach
  else if reach.display then { reach with display := false }
  else { reach with visibility := false }

mutual

/-- The reach behind a node. -/
def Html.after (reach : Reach) : Html → Reach
  | .text _ _ => reach
  | .void _ _ _ => reach
  | .element name attributes children => (afterAll (reach.opened name attributes) children).closed name

def afterAll (reach : Reach) : List Html → Reach
  | [] => reach
  | node :: nodes => afterAll (node.after reach) nodes

end

mutual

def Html.reached (counts : List Char → Bool) (hidden : Bool) (reach : Reach) : Html → Bool
  | .text chars _ => !(counts chars && hidden) || reach.covers
  | .void _ _ _ => true
  | .element name attributes children =>
    reachedAll counts (hidden || hiddenElement name attributes) (reach.opened name attributes) children

def reachedAll (counts : List Char → Bool) (hidden : Bool) (reach : Reach) : List Html → Bool
  | [] => true
  | node :: nodes => node.reached counts hidden reach && reachedAll counts hidden (node.after reach) nodes

end

/-- No hidden element is open. -/
def Reach.none : Reach := ⟨false, false⟩

/-! ### Hollow elements -/

/-- What stands in a hidden element, or a tag that the pattern of a hidden one takes. -/
def removable (piece : Piece) : Bool :=
  piece.hidden || looksHidden "display" "none" piece || looksHidden "visibility" "hidden" piece ||
    closesListed piece

/-- What can go without a text that is not hidden, but for white space. -/
def hollow (piece : Piece) : Bool :=
  removable piece || isBlank piece || pruneTags.any fun tag => opensWrapper tag piece || closesWrapper tag piece

/-- A piece stands between a tag and a closing tag of a wrapper with nothing but hollow pieces. -/
def Exposed (row : List Piece) (piece : Piece) : Prop :=
  ∃ opener ∈ row, ∃ closer ∈ row, (∃ tag ∈ pruneTags, opensWrapper tag opener = true ∧
    closesWrapper tag closer = true) ∧ opener.place < piece.place ∧ piece.place < closer.place ∧
    ∀ other ∈ row, opener.place < other.place → other.place < closer.place → hollow other = true

instance (row : List Piece) (piece : Piece) : Decidable (Exposed row piece) :=
  inferInstanceAs (Decidable (∃ _ ∈ row, _))

section Kinds

variable {patterns : List Pattern} {pattern : Pattern} {piece : Piece} {row : List Piece}

theorem not_isText_of_opensWith (opens : opensWith patterns piece = true) : isText piece = false := by
  cases token : piece.token with
  | opening inner => simp [isText, counted, token]
  | closing name => simp [opensWith, token] at opens
  | text chars => simp [opensWith, token] at opens

theorem not_isText_of_closesWith (closes : closesWith pattern piece = true) : isText piece = false := by
  cases token : piece.token with
  | opening inner => simp [closesWith, token] at closes
  | closing name => simp [isText, counted, token]
  | text chars => simp [closesWith, token] at closes

theorem counted_text {counts : List Char → Bool} {chars : List Char} (token : piece.token = .text chars) :
    counted counts piece = counts chars := by
  rw [counted, token]

theorem closesListed_closing {name : TagName} (token : piece.token = .closing name.chars) :
    closesListed piece = endsListed name := by
  rw [closesListed, closesWith_closing token, endsListed, Bool.eq_iff_iff, takesAll_iff, decide_eq_true_iff]

/-! ### What the two patterns leave -/

/-- The pieces that the first of the two patterns leaves, from a reach on. -/
def Reach.first (reach : Reach) : List Piece → List Piece :=
  left (looksHidden "display" "none") closesListed reach.display

def Reach.second (reach : Reach) : List Piece → List Piece :=
  left (looksHidden "visibility" "hidden") closesListed reach.visibility

theorem uncut_eq_left (row : List Piece) : uncut row = Reach.none.second (Reach.none.first row) := by
  rw [uncut, cut, cut, sweep_eq_left, sweep_eq_left]
  rfl

/-- What the patterns leave of a part of a row, with the reaches before and after it. -/
structure Leaves (counts : List Char → Bool) (before after : Reach) (part rest kept : List Piece)
    (reached : Bool) : Prop where
  passes : ∃ middle, before.first (part ++ rest) = middle ++ after.first rest ∧
    before.second (middle ++ after.first rest) = kept ++ after.second (after.first rest)
  lost : ∀ piece ∈ part, piece ∉ kept → removable piece = true
  counted : reached = true ↔ ∀ piece ∈ kept, counted counts piece = true → piece.hidden = false

section Leaves

variable {counts : List Char → Bool} {reach mid after : Reach} {part next rest kept more : List Piece}
  {name : TagName} {attributes : List Attribute}

theorem Leaves.nil : Leaves counts reach reach [] rest [] true where
  passes := ⟨[], rfl, rfl⟩
  lost := by simp
  counted := by simp

theorem Leaves.append {reached reached' : Bool} (first : Leaves counts reach mid part (next ++ rest) kept reached)
    (second : Leaves counts mid after next rest more reached') :
    Leaves counts reach after (part ++ next) rest (kept ++ more) (reached && reached') where
  passes := by
    obtain ⟨front, displays, shows⟩ := first.passes
    obtain ⟨back, displays', shows'⟩ := second.passes
    refine ⟨front ++ back, ?_, ?_⟩
    · rw [List.append_assoc, displays, displays', List.append_assoc]
    · rw [List.append_assoc, ← displays', shows, displays', shows', List.append_assoc]
  lost := by
    intro piece member gone
    obtain ⟨inFront, inBack⟩ := not_or.mp (mt List.mem_append.mpr gone)
    exact (List.mem_append.mp member).elim (first.lost piece · inFront) (second.lost piece · inBack)
  counted := by
    rw [Bool.and_eq_true, first.counted, second.counted, List.forall_mem_append]

theorem leaves_still (still : closesListed piece = false) (never : rest.any closesListed = true →
      looksHidden "display" "none" piece = false ∧ looksHidden "visibility" "hidden" piece = false)
    (within : reach.covers = true → piece.hidden = true) :
    Leaves counts reach reach [piece] rest (if reach.covers then [] else [piece])
      (!(counted counts piece && piece.hidden) || reach.covers) where
  passes := by
    have last : (reach.first rest).any closesListed = true → rest.any closesListed = true := by
      simp only [List.any_eq_true]
      rintro ⟨closer, member, closes⟩
      exact ⟨closer, (left_sublist _ rest).subset member, closes⟩
    -- a piece that the display pattern takes does not come before the other one
    rcases reach with ⟨_ | _, _ | _⟩
    · have opens : (looksHidden "display" "none" piece && rest.any closesListed) = false := by grind
      have shows : (looksHidden "visibility" "hidden" piece &&
          (left (looksHidden "display" "none") closesListed false rest).any closesListed) = false := by
        simp only [Reach.first] at last
        grind
      exact ⟨[piece], by simp [Reach.first, left, opens], by simp [Reach.first, Reach.second, left, shows,
        Reach.covers]⟩
    · have opens : (looksHidden "display" "none" piece && rest.any closesListed) = false := by grind
      exact ⟨[piece], by simp [Reach.first, left, opens], by simp [Reach.first, Reach.second, left, still,
        Reach.covers]⟩
    · exact ⟨[], by simp [Reach.first, left, still], by simp [Reach.covers]⟩
    · exact ⟨[], by simp [Reach.first, left, still], by simp [Reach.covers]⟩
  lost := by
    intro other member gone
    obtain rfl := List.mem_singleton.mp member
    have covered : reach.covers = true := by
      by_contra free
      simp [free] at gone
    simp [removable, within covered]
  counted := by
    cases covered : reach.covers <;> cases counts' : counted counts piece <;> simp [counts']

theorem leaves_opened (token : piece.token = .opening (tagText name attributes))
    (hides : hiddenElement name attributes = true) (shows : seemsHidden name attributes = true)
    (closes : rest.any closesListed = true)
    (later : (reach.opened name attributes).display = false →
      ((reach.opened name attributes).first rest).any closesListed = true) :
    Leaves counts reach (reach.opened name attributes) [piece] rest [] true where
  passes := by
    have still : closesListed piece = false := by simp [closesListed, closesWith, token]
    have display : looksHidden "display" "none" piece = seems "display" "none" name attributes := by
      rw [looksHidden, opensWith_opening token, seems]
    have visibility : looksHidden "visibility" "hidden" piece = seems "visibility" "hidden" name attributes := by
      rw [looksHidden, opensWith_opening token, seems]
    refine ⟨if reach.display || seems "display" "none" name attributes then [] else [piece], ?_, ?_⟩
    · rcases reach with ⟨_ | _, v⟩ <;> cases first : seems "display" "none" name attributes <;>
        simp [Reach.opened, Reach.first, left, hides, first, display, closes, still]
    · rcases reach with ⟨_ | _, v⟩ <;> cases first : seems "display" "none" name attributes <;>
        simp [Reach.opened, hides, first, Reach.second]
      -- the visibility pattern needs a closing tag that the display pattern leaves
      have second : seems "visibility" "hidden" name attributes = true := by
        simpa [seemsHidden, first] using shows
      have ended := later (by simp [Reach.opened, hides, first])
      simp only [Reach.opened, hides, first, Reach.first] at ended ⊢
      cases v <;> simp_all [left]
  lost := by
    intro other member _
    obtain rfl := List.mem_singleton.mp member
    rw [removable, looksHidden, looksHidden, opensWith_opening token, opensWith_opening token]
    simp only [seemsHidden, seems, Bool.or_eq_true] at shows
    simp only [Bool.or_eq_true]
    tauto
  counted := by simp

/-- A closing tag of a listed kind closes a reach. -/
theorem leaves_closed (token : piece.token = .closing name.chars)
    (within : reach.covers = true → piece.hidden = true ∨ endsListed name = true) :
    Leaves counts reach (reach.closed name) [piece] rest (if reach.covers then [] else [piece]) true where
  passes := by
    have closes : closesListed piece = endsListed name := closesListed_closing token
    have display : looksHidden "display" "none" piece = false := by simp [looksHidden, opensWith, token]
    have visibility : looksHidden "visibility" "hidden" piece = false := by
      simp [looksHidden, opensWith, token]
    refine ⟨if reach.display then [] else [piece], ?_, ?_⟩
    · rcases reach with ⟨_ | _, _ | _⟩ <;> cases ends : endsListed name <;>
        simp [Reach.first, Reach.closed, left, closes, ends, display]
    · rcases reach with ⟨_ | _, _ | _⟩ <;> cases ends : endsListed name <;>
        simp [Reach.second, Reach.closed, Reach.covers, left, closes, ends, visibility]
  lost := by
    intro other member gone
    obtain rfl := List.mem_singleton.mp member
    have closes : closesListed other = endsListed name := closesListed_closing token
    have covered : reach.covers = true := by
      by_contra free
      simp [free] at gone
    rcases within covered with hidden | ends
    · simp [removable, hidden]
    · simp [removable, closes, ends]
  counted := by
    have never : DomPruner.counted counts piece = false := by simp [DomPruner.counted, token]
    cases reach.covers <;> simp [never]

/-- The closing tag of a visibility element is not in a display element. -/
theorem Leaves.closer_left {reached : Bool} (leaves : Leaves counts reach after part (piece :: rest) kept reached)
    (ended : after.display = false) (token : piece.token = .closing name.chars) (ends : endsListed name = true) :
    (reach.first (part ++ piece :: rest)).any closesListed = true := by
  obtain ⟨front, displays, -⟩ := leaves.passes
  have never : looksHidden "display" "none" piece = false := by simp [looksHidden, opensWith, token]
  have closes : closesListed piece = true := (closesListed_closing token).trans ends
  rw [displays, List.any_append, Reach.first, ended, left, never, Bool.false_and]
  simp [closes]

end Leaves

end Kinds

/-! ### What a document leaves -/

theorem endsListed_of_hides {name : TagName} {attributes : List Attribute}
    (hides : hiddenElement name attributes = true) : endsListed name = true := by
  simp only [hiddenElement, Bool.and_eq_true, List.any_eq_true, beq_iff_eq] at hides
  obtain ⟨⟨tag, listed, same⟩, -⟩ := hides
  exact takesAll_iff.mpr (mem_rests_alts (List.mem_map_of_mem listed) (nil_mem_rests_literal same.symm))

/-- A reach goes no further than another one. -/
def Reach.Within (reach other : Reach) : Prop :=
  (reach.display = true → other.display = true) ∧ (reach.visibility = true → other.visibility = true)

theorem Reach.Within.covers {reach other : Reach} (within : reach.Within other) (covers : reach.covers = true) :
    other.covers = true := by
  simp only [Reach.covers, Bool.or_eq_true] at covers ⊢
  exact covers.imp within.1 within.2

/-- What a hidden element opens ends with it at the latest. -/
theorem closed_within {reach inside : Reach} {name : TagName} {attributes : List Attribute}
    (within : inside.Within (reach.opened name attributes)) : (inside.closed name).Within reach := by
  have listed := @endsListed_of_hides name attributes
  rcases reach with ⟨_ | _, _ | _⟩ <;> rcases inside with ⟨_ | _, _ | _⟩ <;>
    simp [Reach.Within, Reach.opened, Reach.closed] at within ⊢ <;> grind

mutual

/-- Behind a node no more is open than in front of it. -/
theorem after_within (reach : Reach) (node : Html) : (node.after reach).Within reach := by
  cases node with
  | text chars => exact ⟨id, id⟩
  | void name attributes => exact ⟨id, id⟩
  | element name attributes children =>
    exact closed_within (afterAll_within (reach.opened name attributes) children)

theorem afterAll_within (reach : Reach) (nodes : List Html) : (afterAll reach nodes).Within reach := by
  cases nodes with
  | nil => exact ⟨id, id⟩
  | cons node nodes =>
    have first := after_within reach node
    have later := afterAll_within (node.after reach) nodes
    exact ⟨fun display => first.1 (later.1 display), fun visibility => first.2 (later.2 visibility)⟩

end

def entry (piece : Piece) : Token × Bool := (piece.token, piece.hidden)

theorem map_entry_element {part : List Piece} {hidden : Bool} {name : TagName} {attributes : List Attribute}
    {children : List Html} (same : part.map entry = (Html.element name attributes children).tokens hidden) :
    ∃ opener inner closer, part = opener :: (inner ++ [closer]) ∧
      opener.token = .opening (tagText name attributes) ∧ opener.hidden = hidden ∧
      inner.map entry = tokensAll (hidden || hiddenElement name attributes) children ∧
      closer.token = .closing name.chars ∧ closer.hidden = hidden := by
  simp only [Html.tokens, List.map_eq_cons_iff, List.map_eq_append_iff, List.map_eq_nil_iff] at same
  obtain ⟨opener, -, rfl, opens, inner, -, rfl, within, closer, -, rfl, closes, rfl⟩ := same
  exact ⟨opener, inner, closer, rfl, congrArg Prod.fst opens, congrArg Prod.snd opens, within,
    congrArg Prod.fst closes, congrArg Prod.snd closes⟩

mutual

theorem any_closesListed (node : Html) {hidden : Bool} {part : List Piece}
    (same : part.map entry = node.tokens hidden) : part.any closesListed = node.hasListed := by
  cases node with
  | text chars =>
    obtain ⟨piece, rfl, token⟩ := List.map_eq_singleton_iff.mp same
    have text : piece.token = .text chars := congrArg Prod.fst token
    simp [Html.hasListed, closesListed, closesWith, text]
  | void name attributes =>
    obtain ⟨piece, rfl, token⟩ := List.map_eq_singleton_iff.mp same
    have opens : piece.token = .opening (tagText name attributes) := congrArg Prod.fst token
    simp [Html.hasListed, closesListed, closesWith, opens]
  | element name attributes children =>
    obtain ⟨opener, inner, closer, rfl, opens, -, within, closes, -⟩ := map_entry_element same
    have first : closesListed opener = false := by simp [closesListed, closesWith, opens]
    have last : closesListed closer = endsListed name := closesListed_closing closes
    simp [Html.hasListed, any_closesListedAll children within, first, last, Bool.or_comm]

theorem any_closesListedAll (nodes : List Html) {hidden : Bool} {part : List Piece}
    (same : part.map entry = tokensAll hidden nodes) : part.any closesListed = hasListedAll nodes := by
  cases nodes with
  | nil =>
    obtain rfl := List.map_eq_nil_iff.mp same
    rfl
  | cons node nodes =>
    obtain ⟨front, back, rfl, first, later⟩ := List.map_eq_append_iff.mp same
    rw [List.any_append, any_closesListed node first, any_closesListedAll nodes later, hasListedAll]

end

mutual

/-- The reach behind a node is that of the tree, and so are the texts that stay. -/
theorem leaves_node (counts : List Char → Bool) (node : Html) {reach : Reach} {follows hidden : Bool}
    {part rest : List Piece} (tells : node.tells follows = true) (same : part.map entry = node.tokens hidden)
    (closing : rest.any closesListed = follows) (within : reach.covers = true → hidden = true) :
    ∃ kept, Leaves counts reach (node.after reach) part rest kept (node.reached counts hidden reach) := by
  cases node with
  | text chars =>
    obtain ⟨piece, rfl, token⟩ := List.map_eq_singleton_iff.mp same
    obtain ⟨text, rfl⟩ : piece.token = .text chars ∧ piece.hidden = hidden := Prod.mk.inj token
    have still := @leaves_still piece counts reach rest (by simp [closesListed, closesWith, text])
      (fun _ => by simp [looksHidden, opensWith, text]) within
    rw [counted_text text] at still
    exact ⟨_, still⟩
  | void name attributes =>
    obtain ⟨piece, rfl, token⟩ := List.map_eq_singleton_iff.mp same
    obtain ⟨opens, rfl⟩ : piece.token = .opening (tagText name attributes) ∧ piece.hidden = hidden :=
      Prod.mk.inj token
    have still := @leaves_still piece counts reach rest (by simp [closesListed, closesWith, opens])
      (fun ends => by
        subst closing
        simpa [Html.tells, ends, seemsHidden, looksHidden, opensWith_opening opens, seems] using tells) within
    have never : counted counts piece = false := by simp [counted, opens]
    rw [never] at still
    exact ⟨_, still⟩
  | element name attributes children =>
    obtain ⟨opener, inner, closer, rfl, opens, rfl, inside, closes, outside⟩ := map_entry_element same
    have last : closesListed closer = endsListed name := closesListed_closing closes
    simp only [Html.tells, Bool.and_eq_true] at tells
    obtain ⟨tag, deeper⟩ := tells
    have behind : (closer :: rest).any closesListed = (endsListed name || follows) := by
      rw [List.any_cons, last, closing]
    have ends : (inner ++ closer :: rest).any closesListed =
        (hasListedAll children || (endsListed name || follows)) := by
      rw [List.any_append, any_closesListedAll children inside, behind]
    -- in the element a reach is open only if the element is hidden or stands in a hidden one
    have covered : (reach.opened name attributes).covers = true →
        (opener.hidden || hiddenElement name attributes) = true := by
      cases hides : hiddenElement name attributes
      · simpa [Reach.opened, hides] using within
      · simp
    obtain ⟨kept, middle⟩ := leaves_nodes counts children deeper inside behind covered
    have leaving := (afterAll_within (reach.opened name attributes) children).covers
    have final := @leaves_closed closer counts (afterAll (reach.opened name attributes) children) rest name closes
      (fun covers => by
        have inHidden := covered (leaving covers)
        rw [Bool.or_eq_true, ← outside] at inHidden
        exact inHidden.imp_right endsListed_of_hides)
    cases hides : hiddenElement name attributes with
    | true =>
      have ended := endsListed_of_hides hides
      have seen : seemsHidden name attributes = true := by simpa [ended, hides] using tag
      have first := @leaves_opened opener counts reach (inner ++ closer :: rest) name attributes opens hides seen
        (by rw [ends, ended, Bool.true_or, Bool.or_true]) (fun closed => by
          refine middle.closer_left (Bool.eq_false_iff.mpr fun covers => ?_) closes ended
          rw [(afterAll_within _ children).1 covers] at closed
          cases closed)
      have whole := (first.append middle).append final
      rw [Bool.true_and, Bool.and_true] at whole
      rw [Html.after, Html.reached]
      exact ⟨_, whole⟩
    | false =>
      have first := @leaves_still opener counts reach (inner ++ closer :: rest)
        (by simp [closesListed, closesWith, opens]) (fun closing' => by
          rw [ends] at closing'
          simpa [closing', hides, seemsHidden, looksHidden, opensWith_opening opens, seems] using tag) within
      have never : counted counts opener = false := by simp [counted, opens]
      have same' : reach.opened name attributes = reach := by simp [Reach.opened, hides]
      rw [same'] at middle final
      have whole := (first.append middle).append final
      simp only [never, Bool.false_and, Bool.not_false, Bool.true_or, Bool.true_and, Bool.and_true] at whole
      rw [Html.after, Html.reached, same']
      exact ⟨_, whole⟩

theorem leaves_nodes (counts : List Char → Bool) (nodes : List Html) {reach : Reach} {follows hidden : Bool}
    {part rest : List Piece} (tells : tellsAll follows nodes = true)
    (same : part.map entry = tokensAll hidden nodes) (closing : rest.any closesListed = follows)
    (within : reach.covers = true → hidden = true) :
    ∃ kept, Leaves counts reach (afterAll reach nodes) part rest kept (reachedAll counts hidden reach nodes) := by
  cases nodes with
  | nil =>
    obtain rfl := List.map_eq_nil_iff.mp same
    exact ⟨[], .nil⟩
  | cons node nodes =>
    obtain ⟨front, back, rfl, here, later⟩ := List.map_eq_append_iff.mp same
    obtain ⟨first, others⟩ := (Bool.and_eq_true _ _).mp tells
    have behind : (back ++ rest).any closesListed = (hasListedAll nodes || follows) := by
      rw [List.any_append, any_closesListedAll nodes later, closing]
    obtain ⟨kept, start⟩ := leaves_node counts node first here behind within
    have narrower : (node.after reach).covers = true → hidden = true :=
      fun covers => within ((after_within reach node).covers covers)
    obtain ⟨more, end'⟩ := leaves_nodes counts nodes others later closing narrower
    exact ⟨kept ++ more, start.append end'⟩

end

section Kept

variable {property value : String} {row result : List Piece} {piece : Piece}

/-- Around a text that a wrapper pattern takes there is only blank text. -/
theorem Wrapper.mem {stretch : List Piece} (wrapper : Wrapper stretch) (member : piece ∈ stretch)
    (text : isText piece = true) : isBlank piece = true := by
  obtain ⟨tag, -, opener, middle, closer, rfl, opens, closes, blank⟩ := wrapper
  simp only [List.mem_cons, List.mem_append, List.not_mem_nil, or_false] at member
  rcases member with rfl | inside | rfl
  · rw [not_isText_of_opensWith opens] at text
    cases text
  · exact blank piece inside
  · rw [not_isText_of_closesWith closes] at text
    cases text

theorem Wrapper.hollow {stretch : List Piece} (wrapper : Wrapper stretch) (member : piece ∈ stretch) :
    hollow piece = true := by
  obtain ⟨tag, known, opener, middle, closer, rfl, opens, closes, blank⟩ := wrapper
  simp only [List.mem_cons, List.mem_append, List.not_mem_nil, or_false] at member
  simp only [DomPruner.hollow, Bool.or_eq_true, List.any_eq_true]
  rcases member with rfl | inside | rfl
  · exact .inr ⟨tag, known, .inl opens⟩
  · exact .inl (.inr (blank piece inside))
  · exact .inr ⟨tag, known, .inr closes⟩

/-- A text that is not only white space is left by the wrapper patterns. -/
theorem mem_survivors_iff (document : List Html) (text : hasText piece = true) :
    piece ∈ survivors document ↔ piece ∈ uncut (pieces document) := by
  have shrinks := survivors_shrinks document
  constructor
  · exact fun kept => shrinks.sublist.subset kept
  · apply shrinks.mem_of_stays
    intro stretch wrapper member
    cases token : piece.token with
    | opening inner => simp [hasText, counted, token] at text
    | closing name => simp [hasText, counted, token] at text
    | text chars =>
      have blank := wrapper.mem member (by simp [isText, counted, token])
      rw [isBlank_text token] at blank
      simp [hasText, counted, token, notBlank, blank] at text

/-- What survives stands in the markup. -/
theorem infix_render (member : piece ∈ row) : piece.token.write <:+: render row := by
  obtain ⟨front, back, rfl⟩ := List.append_of_mem member
  exact ⟨render front, render back, by simp [render]⟩

/-- A text that goes in wrappers stood between their tags. -/
theorem exposed_of_lost (shrinks : Shrinks Wrapper row result) (placed : Placed Piece.place row)
    (text : isText piece = true) (member : piece ∈ row) (lost : piece ∉ result) : Exposed row piece := by
  induction shrinks with
  | refl => exact absurd member lost
  | @step front stretch back result out more ih =>
    by_cases inside : piece ∈ stretch
    · obtain ⟨tag, known, opener, middle, closer, rfl, opens, closes, blank⟩ := out
      obtain ⟨-, later, before⟩ := List.pairwise_append.mp placed
      obtain ⟨within, -, after⟩ := List.pairwise_append.mp later
      obtain ⟨first, ends⟩ := List.pairwise_cons.mp within
      have last := (List.pairwise_append.mp ends).2.2
      have inner : piece ∈ middle := by
        simp only [List.mem_cons, List.mem_append, List.not_mem_nil, or_false] at inside
        rcases inside with rfl | inner | rfl
        · rw [not_isText_of_opensWith opens] at text
          cases text
        · exact inner
        · rw [not_isText_of_closesWith closes] at text
          cases text
      refine ⟨opener, by simp, closer, by simp, ⟨tag, known, opens, closes⟩, first piece (by simp [inner]),
        last piece inner closer (by simp), ?_⟩
      -- what stands between the two tags is in the middle
      intro other whole past early
      simp only [List.mem_append, List.mem_cons, List.not_mem_nil, or_false] at whole
      rcases whole with inFront | (rfl | inMiddle | rfl) | inBack
      · exact absurd (before other inFront opener (by simp)) (Nat.lt_asymm past)
      · exact absurd past (Nat.lt_irrefl _)
      · simp [hollow, blank other inMiddle]
      · exact absurd early (Nat.lt_irrefl _)
      · exact absurd (after closer (by simp) other inBack) (Nat.lt_asymm early)
    · -- the stretch that went first is hollow itself
      have rest : piece ∈ front ++ back := by
        simp only [List.mem_append] at member ⊢
        tauto
      have sub : (front ++ back).Sublist (front ++ (stretch ++ back)) :=
        List.Sublist.append_left (List.sublist_append_right stretch back) front
      obtain ⟨opener, opens, closer, closes, wrapper, least, most, between⟩ :=
        ih (placed.sublist sub) rest lost
      refine ⟨opener, sub.subset opens, closer, sub.subset closes, wrapper, least, most, ?_⟩
      intro other whole after before
      by_cases taken : other ∈ stretch
      · exact out.hollow taken
      · refine between other ?_ after before
        simp only [List.mem_append] at whole ⊢
        tauto

/-- Of a document that tells, the patterns leave every piece that is not removable, and no hidden text that
counts exactly if all of them are reached. -/
theorem uncut_leaves (counts : List Char → Bool) {document : List Html} (tells : tellsAll false document = true) :
    (∀ piece ∈ pieces document, piece ∉ uncut (pieces document) → removable piece = true) ∧
    (reachedAll counts false .none document = true ↔
      ∀ piece ∈ uncut (pieces document), counted counts piece = true → piece.hidden = false) := by
  have same : (pieces document).map entry = tokensAll false document := map_pieces document
  obtain ⟨kept, leaves⟩ := @leaves_nodes counts document .none false false (pieces document) [] tells same rfl
    (fun covers => covers)
  obtain ⟨middle, displays, shows⟩ := leaves.passes
  have nothing (reach : Reach) : reach.first [] = [] := by cases reach.display <;> simp [Reach.first, left]
  have nothing' (reach : Reach) : reach.second [] = [] := by cases reach.display <;> simp [Reach.second, left]
  rw [List.append_nil, nothing, List.append_nil] at displays
  rw [nothing, List.append_nil, nothing', List.append_nil, ← displays] at shows
  rw [uncut_eq_left, shows]
  exact ⟨leaves.lost, leaves.counted⟩

theorem uncut_sublist (row : List Piece) : (uncut row).Sublist row :=
  (sweep_sublist behind_suffix _).trans (sweep_sublist behind_suffix _)

/-- No text is a tag that the patterns take. -/
theorem hidden_of_removable (text : isText piece = true) (goes : removable piece = true) : piece.hidden = true := by
  cases token : piece.token with
  | opening inner => simp [isText, counted, token] at text
  | closing name => simp [isText, counted, token] at text
  | text chars => simpa [removable, looksHidden, opensWith, closesListed, closesWith, token] using goes

theorem isText_of_hasText (text : hasText piece = true) : isText piece = true := by
  cases token : piece.token with
  | opening inner => simp [hasText, counted, token] at text
  | closing name => simp [hasText, counted, token] at text
  | text chars => simp [isText, counted, token]

end Kept

/-! ### Two documents -/

namespace PruneRuns

def divTag : TagName :=
  ⟨"div".toList, ⟨'d', "iv".toList, rfl, by decide⟩, forall_of_all (by decide), by decide⟩

def spanTag : TagName :=
  ⟨"span".toList, ⟨'s', "pan".toList, rfl, by decide⟩, forall_of_all (by decide), by decide⟩

def hiddenStyle : Attribute :=
  ⟨"style".toList, "display:none".toList, forall_of_all (by decide), by decide, by decide⟩

def invisibleStyle : Attribute :=
  ⟨"style".toList, "visibility:hidden".toList, forall_of_all (by decide), by decide, by decide⟩

def shown : Html := .text "shown".toList (by decide)

def secret : Html := .text "secret".toList (by decide)

/-- A text behind an element of a listed tag in a hidden one. -/
def nested : List Html := [.element divTag [hiddenStyle] [.element spanTag [] [shown], secret]]

def secretPiece : Piece := ⟨.text "secret".toList, true, 4⟩

/-- A hidden element in an invisible one, with a text behind it, and a text that is not hidden. -/
def twice : List Html :=
  [.element divTag [invisibleStyle] [.element spanTag [hiddenStyle] [secret], secret],
    .element spanTag [] [shown]]

end PruneRuns

end Webfang.Domain.DomPruner
