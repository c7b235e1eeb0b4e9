import Webfang.Library.Backtrack

/-!
# Byline fragments

`EMPTY_BYLINE_FRAGMENT` finds the fragments `by (…)` of an excerpt, each from the end of the one before. What
is left on both sides of a fragment, and a name put in between, may make up a fragment again.
-/
namespace Webfang.Domain.ExcerptRepair

open Library Text Backtrack

/-! ### Fragments -/

/-- What stands behind `by\s+\(`. -/
def opening : List Char → Option (List Char)
  | 'b' :: 'y' :: w :: rest =>
    if isWhitespace w then
      match rest.dropWhile isWhitespace with
      | '(' :: behind => some behind
      | _ => none
    else none
  | _ => none

/-- What stands behind `by\s+\([^)]*\)`. -/
def fragmentAt (text : List Char) : Option (List Char) :=
  (opening text).bind fun behind =>
    if ')' ∈ behind then some (behind.dropWhile (· ≠ ')')).tail else none

section Pieces

variable (words : WordClass)

/-- `\b` before a letter, by the character in front of it. -/
def boundary (prev : Option Char) : Bool := !prev.any words.isWord

/-- What `EMPTY_BYLINE_FRAGMENT` leaves on both sides of its matches, in a text of this length at most. -/
def piecesWithin : (length : Nat) → (prev : Option Char) → List Char → List (List Char)
  | 0, _, text => [text]
  | _ + 1, _, [] => [[]]
  | length + 1, prev, c :: rest =>
    match if boundary words prev then fragmentAt (c :: rest) else none with
    | some behind => [] :: piecesWithin length (some ')') behind
    | none => (piecesWithin length (some c) rest).modifyHead (c :: ·)

def pieces (text : List Char) : List (List Char) := piecesWithin words text.length none text

/-- What the closure of `replace_all` puts in. -/
def byline (author : Option (List Char)) : List Char :=
  match author with
  | some name => "by ".toList ++ name
  | none => []

def replaceAll (text replacement : List Char) : List Char := replacement.intercalate (pieces words text)

/-- The pieces of a text behind this character, as the matcher goes from place to place. -/
inductive Pieces : Option Char → List Char → List (List Char) → Prop
  | nil (prev : Option Char) : Pieces prev [] [[]]
  | fragment {prev : Option Char} {text behind : List Char} {later : List (List Char)}
    (edge : boundary words prev = true) (found : fragmentAt text = some behind)
    (rest : Pieces (some ')') behind later) : Pieces prev text ([] :: later)
  | step {prev : Option Char} {c : Char} {rest piece : List Char} {later : List (List Char)}
    (none : boundary words prev = true → fragmentAt (c :: rest) = none)
    (next : Pieces (some c) rest (piece :: later)) : Pieces prev (c :: rest) ((c :: piece) :: later)

end Pieces

variable {words : WordClass} {prev : Option Char} {text behind : List Char} {parts : List (List Char)}

theorem opening_eq_some (found : opening text = some behind) :
    ∃ w blanks, text = 'b' :: 'y' :: w :: (blanks ++ '(' :: behind) ∧ isWhitespace w = true ∧
      ∀ c ∈ blanks, isWhitespace c = true := by
  rw [opening.eq_def] at found
  split at found
  next w rest =>
    split at found
    next white =>
      split at found
      next behind' opens =>
        cases found
        refine ⟨w, rest.takeWhile isWhitespace, ?_, white, fun c member => List.mem_takeWhile_imp member⟩
        rw [← opens, List.takeWhile_append_dropWhile]
      next => cases found
    next => cases found
  next => cases found

theorem fragmentAt_eq_some (found : fragmentAt text = some behind) :
    ∃ inner, opening text = some (inner ++ ')' :: behind) ∧ ')' ∉ inner := by
  rw [fragmentAt, Option.bind_eq_some_iff] at found
  obtain ⟨opened, opens, closes⟩ := found
  split at closes
  next member =>
    obtain ⟨inner, back, rfl, flat⟩ := List.eq_append_cons_of_mem member
    rw [dropWhile_append_stop (by decide), List.dropWhile_eq_nil_iff.mpr] at closes
    · cases closes
      exact ⟨inner, opens, flat⟩
    · intro c inside
      exact decide_eq_true fun same => flat (same ▸ inside)
  next => cases closes

/-- A match: `by`, white space, and a parenthesis. -/
theorem fragmentAt_split (found : fragmentAt text = some behind) :
    ∃ w blanks inner, text = 'b' :: 'y' :: w :: (blanks ++ '(' :: (inner ++ ')' :: behind)) ∧
      isWhitespace w = true ∧ (∀ c ∈ blanks, isWhitespace c = true) ∧ ')' ∉ inner := by
  obtain ⟨inner, opens, flat⟩ := fragmentAt_eq_some found
  obtain ⟨w, blanks, split, white, all⟩ := opening_eq_some opens
  exact ⟨w, blanks, inner, split, white, all, flat⟩

theorem Pieces.ne_nil (found : Pieces words prev text parts) : parts ≠ [] := by
  cases found <;> exact List.cons_ne_nil _ _

theorem piecesWithin_spec {length : Nat} (enough : text.length ≤ length) (prev : Option Char) :
    Pieces words prev text (piecesWithin words length prev text) := by
  induction length generalizing text prev with
  | zero =>
    obtain rfl := List.length_eq_zero_iff.mp (Nat.le_zero.mp enough)
    exact .nil prev
  | succ length ih =>
    cases text with
    | nil => exact .nil prev
    | cons c rest =>
      rw [List.length_cons] at enough
      rw [piecesWithin]
      split
      next behind found =>
        split at found
        next edge =>
          obtain ⟨w, blanks, inner, split, -⟩ := fragmentAt_split found
          refine .fragment edge found (ih ?_ _)
          have size := congrArg List.length split
          simp only [List.length_cons, List.length_append] at size
          omega
        next => cases found
      next found =>
        have next := ih (Nat.le_of_succ_le_succ enough) (some c)
        cases all : piecesWithin words length (some c) rest with
        | nil => exact absurd all next.ne_nil
        | cons piece later =>
          rw [all] at next
          exact .step (fun edge => by simpa [edge] using found) next

theorem pieces_spec (words : WordClass) (text : List Char) : Pieces words none text (pieces words text) :=
  piecesWithin_spec le_rfl none

theorem pieces_cons (words : WordClass) (text : List Char) :
    ∃ piece later, pieces words text = piece :: later ∧ Pieces words none text (piece :: later) := by
  have found := pieces_spec words text
  cases all : pieces words text with
  | nil => exact absurd all found.ne_nil
  | cons piece later => exact ⟨piece, later, rfl, all ▸ found⟩

theorem Pieces.unique {others : List (List Char)} (found : Pieces words prev text parts)
    (other : Pieces words prev text others) : parts = others := by
  induction found generalizing others with
  | nil prev =>
    cases other with
    | nil => rfl
    | fragment _ found _ => cases found
  | fragment edge found rest ih =>
    cases other with
    | nil => cases found
    | fragment _ found' rest' =>
      obtain rfl := Option.some.inj (found.symm.trans found')
      rw [ih rest']
    | step none _ =>
      rw [none edge] at found
      cases found
  | step none next ih =>
    cases other with
    | fragment edge found _ =>
      rw [none edge] at found
      cases found
    | step _ next' =>
      obtain ⟨rfl, rfl⟩ := List.cons.inj (ih next')
      rfl

/-- Only whether the character in front is one of a word matters. -/
theorem Pieces.after {other : Option Char} (same : boundary words other = boundary words prev)
    (found : Pieces words prev text parts) : Pieces words other text parts := by
  cases found with
  | nil => exact .nil other
  | fragment edge found rest => exact .fragment (same.trans edge) found rest
  | step none next => exact .step (fun edge => none (same.symm.trans edge)) next

/-! ### Texts with a fragment -/

/-- A match begins here. -/
def Opens (text : List Char) : Prop := ∃ behind, opening text = some behind ∧ ')' ∈ behind

theorem fragmentAt_eq_none_iff : fragmentAt text = none ↔ ¬ Opens text := by
  rw [fragmentAt, Opens]
  cases opening text with
  | none => simp
  | some opened => by_cases closed : ')' ∈ opened <;> simp [closed]

theorem opens_of_fragmentAt (found : fragmentAt text = some behind) : Opens text := by
  by_contra none
  rw [fragmentAt_eq_none_iff.mpr none] at found
  cases found

theorem opening_blanks {w : Char} {blanks : List Char} (white : isWhitespace w = true)
    (all : ∀ c ∈ blanks, isWhitespace c = true) (behind : List Char) :
    opening ('b' :: 'y' :: w :: (blanks ++ '(' :: behind)) = some behind := by
  have rest : (blanks ++ '(' :: behind).dropWhile isWhitespace = '(' :: behind := by
    rw [List.dropWhile_append_of_pos all, List.dropWhile_cons_of_neg (by decide)]
  rw [opening, if_pos white, rest]
  rfl

theorem opening_append {front : List Char} (found : opening front = some behind) (back : List Char) :
    opening (front ++ back) = some (behind ++ back) := by
  obtain ⟨w, blanks, rfl, white, all⟩ := opening_eq_some found
  have whole : ('b' :: 'y' :: w :: (blanks ++ '(' :: behind)) ++ back =
      'b' :: 'y' :: w :: (blanks ++ '(' :: (behind ++ back)) := by simp
  rw [whole, opening_blanks white all]

/-- The parenthesis opens in the front part, or that part is the beginning of `by` and white space. -/
theorem opening_append_cases {front back : List Char} (found : opening (front ++ back) = some behind) :
    (∃ inner, opening front = some inner ∧ behind = inner ++ back) ∨
      ∃ w blanks more, front ++ more = 'b' :: 'y' :: w :: blanks ∧ isWhitespace w = true ∧
        (∀ c ∈ blanks, isWhitespace c = true) ∧ back = more ++ '(' :: behind := by
  obtain ⟨w, blanks, split, white, all⟩ := opening_eq_some found
  have whole : front ++ back = ('b' :: 'y' :: w :: blanks) ++ '(' :: behind := by simpa using split
  rcases List.append_eq_append_iff.mp whole with ⟨more, front_more, back_eq⟩ | ⟨more, rfl, back_eq⟩
  -- the front part ends before the parenthesis, or behind it
  · exact .inr ⟨w, blanks, more, front_more.symm, white, all, back_eq⟩
  · cases more with
    | nil =>
      refine .inr ⟨w, blanks, [], by simp, white, all, ?_⟩
      simpa using back_eq.symm
    | cons c more =>
      rw [List.cons_append, List.cons.injEq] at back_eq
      obtain ⟨rfl, rfl⟩ := back_eq
      refine .inl ⟨more, ?_, rfl⟩
      have shape : ('b' :: 'y' :: w :: blanks) ++ '(' :: more =
          'b' :: 'y' :: w :: (blanks ++ '(' :: more) := by simp
      rw [shape, opening_blanks white all]

theorem opening_append_by {front : List Char} (nonempty : front ≠ []) (back : List Char) :
    opening (front ++ 'b' :: back) = (opening front).map (· ++ 'b' :: back) := by
  cases here : opening front with
  | some inner => exact opening_append here _
  | none =>
    cases whole : opening (front ++ 'b' :: back) with
    | none => rfl
    | some behind =>
      rcases opening_append_cases whole with ⟨inner, found, -⟩ |
        ⟨w, blanks, more, front_more, white, all, back_eq⟩
      · rw [here] at found
        cases found
      -- the `b` behind the front would be one of the `y` and the white space
      · cases more with
        | nil => cases back_eq
        | cons c more =>
          obtain ⟨rfl, -⟩ := List.cons.inj back_eq
          cases front with
          | nil => exact absurd rfl nonempty
          | cons d front =>
            rw [List.cons_append, List.cons.injEq] at front_more
            have member : 'b' ∈ 'y' :: w :: blanks := by
              rw [← front_more.2]
              simp
            rcases List.mem_cons.mp member with same | member
            · cases same
            · rcases List.mem_cons.mp member with rfl | member
              · cases white
              · cases all 'b' member

theorem opening_append_white {back : List Char} (all : ∀ c ∈ back, isWhitespace c = true)
    (front : List Char) : opening (front ++ back) = (opening front).map (· ++ back) := by
  cases here : opening front with
  | some inner => exact opening_append here _
  | none =>
    cases whole : opening (front ++ back) with
    | none => rfl
    | some behind =>
      rcases opening_append_cases whole with ⟨inner, found, -⟩ | ⟨w, blanks, more, -, -, -, rfl⟩
      · rw [here] at found
        cases found
      · cases all '(' (by simp)

section Edges

variable (words)

theorem boundary_none : boundary words none = true := rfl

theorem boundary_some {c : Char} : boundary words (some c) = true ↔ words.isWord c = false := by
  simp [boundary]

theorem boundary_close : boundary words (some ')') = true :=
  (boundary_some words).mpr (words.ascii ')' (by decide))

theorem boundary_white {c : Char} (white : isWhitespace c = true) : boundary words (some c) = true :=
  (boundary_some words).mpr (words.whitespace c white)

theorem isWord_b : words.isWord 'b' = true := words.ascii 'b' (by decide)

theorem isWord_y : words.isWord 'y' = true := words.ascii 'y' (by decide)

/-- A match begins somewhere in the text. -/
def HasFragment : (prev : Option Char) → List Char → Prop
  | _, [] => False
  | prev, c :: rest => boundary words prev = true ∧ Opens (c :: rest) ∨ HasFragment (some c) rest

end Edges

theorem Pieces.hasFragment_iff (found : Pieces words prev text parts) :
    HasFragment words prev text ↔ parts.length ≠ 1 := by
  induction found with
  | nil prev => simp [HasFragment]
  | @fragment prev text behind later edge found rest _ =>
    have more : later.length ≠ 0 := fun none => rest.ne_nil (List.length_eq_zero_iff.mp none)
    refine iff_of_true ?_ (by simpa using more)
    cases text with
    | nil => cases found
    | cons c text => exact .inl ⟨edge, opens_of_fragmentAt found⟩
  | step none _ ih =>
    rw [HasFragment, or_iff_right fun here => fragmentAt_eq_none_iff.mp (none here.1) here.2, ih]
    rfl

theorem Pieces.single {piece : List Char} (found : Pieces words prev text [piece]) : piece = text := by
  induction text generalizing prev piece with
  | nil =>
    cases found with
    | nil => rfl
    | fragment _ found _ => cases found
  | cons c rest ih =>
    cases found with
    | fragment _ _ rest => exact absurd rfl rest.ne_nil
    | step _ next => rw [ih next]

theorem pieces_eq_singleton (none : ¬ HasFragment words Option.none text) : pieces words text = [text] := by
  have found := pieces_spec words text
  rw [found.hasFragment_iff, not_not] at none
  obtain ⟨piece, one⟩ := List.length_eq_one_iff.mp none
  rw [one] at found ⊢
  rw [found.single]

/-! ### What is brought together -/

section Conditions

variable (words)

def EndsBy (prev : Option Char) (piece : List Char) : Prop :=
  ∃ front w blanks, piece = front ++ 'b' :: 'y' :: w :: blanks ∧ isWhitespace w = true ∧
    (∀ c ∈ blanks, isWhitespace c = true) ∧ boundary words (front.getLast?.or prev) = true

/-- Behind white space the text begins with a parenthesis that is closed. -/
def Parenthesised (text : List Char) : Prop :=
  ∃ behind, text.dropWhile isWhitespace = '(' :: behind ∧ ')' ∈ behind

/-- With the fragments taken out, some `by` is joined with a parenthesis behind a fragment. -/
def Rejoins : (prev : Option Char) → List (List Char) → Prop
  | _, [] => False
  | prev, piece :: later =>
    (later ≠ [] ∧ EndsBy words prev piece ∧ Parenthesised later.flatten) ∨ Rejoins (some ')') later

/-- With a name put in, a match begins in `by` or the name, which goes on in the piece behind it. -/
def Reopens (name : List Char) : (prev : Option Char) → List (List Char) → Prop
  | prev, piece :: next :: later =>
    (∃ front back, byline (some name) = front ++ back ∧ back ≠ [] ∧
      boundary words (front.getLast?.or (piece.getLast?.or prev)) = true ∧
      ∃ behind, opening (back ++ next) = some behind ∧
        (')' ∈ behind ∨ ')' ∈ later.flatten ∨ later ≠ [] ∧ ')' ∈ name)) ∨
    Reopens name (byline (some name)).getLast? (next :: later)
  | _, _ => False

end Conditions

/-- What stands in a text behind its first piece: nothing, or a match. -/
theorem Pieces.cases_tail {piece : List Char} {later : List (List Char)}
    (found : Pieces words prev text (piece :: later)) : (later = [] ∧ text = piece) ∨
      ∃ tail behind, text = piece ++ tail ∧ fragmentAt tail = some behind ∧
        boundary words (piece.getLast?.or prev) = true ∧ Pieces words (some ')') behind later := by
  induction text generalizing prev piece with
  | nil =>
    cases found with
    | nil => exact .inl ⟨rfl, rfl⟩
    | fragment _ found _ => cases found
  | cons c rest ih =>
    cases found with
    | @fragment _ _ behind _ edge found rest => exact .inr ⟨_, behind, rfl, found, edge, rest⟩
    | @step _ _ _ piece _ _ next =>
      rcases ih next with ⟨rfl, rfl⟩ | ⟨tail, behind, rfl, found, edge, rest⟩
      · exact .inl ⟨rfl, rfl⟩
      · refine .inr ⟨tail, behind, rfl, found, ?_, rest⟩
        rwa [getLast?_cons_or]

theorem exists_cons_of_fragmentAt (found : fragmentAt text = some behind) :
    ∃ rest, text = 'b' :: rest ∧ ')' ∈ rest := by
  obtain ⟨w, blanks, inner, rfl, -⟩ := fragmentAt_split found
  exact ⟨_, rfl, by simp⟩

/-- In a text that is not one match, no match opens before the first one. -/
theorem opening_eq_none_of_tail {front tail : List Char} (none : ¬ Opens (front ++ tail))
    (found : fragmentAt tail = some behind) : opening front = Option.none := by
  obtain ⟨rest, rfl, closed⟩ := exists_cons_of_fragmentAt found
  cases here : opening front with
  | none => rfl
  | some inner =>
    refine absurd ⟨_, opening_append here _, ?_⟩ none
    exact List.mem_append_right inner (.tail _ closed)

theorem endsBy_cons {c : Char} {piece : List Char} :
    EndsBy words prev (c :: piece) ↔
      (boundary words prev = true ∧ ∃ w blanks, c :: piece = 'b' :: 'y' :: w :: blanks ∧
        isWhitespace w = true ∧ ∀ d ∈ blanks, isWhitespace d = true) ∨ EndsBy words (some c) piece := by
  constructor
  · rintro ⟨front, w, blanks, split, white, all, edge⟩
    cases front with
    | nil => exact .inl ⟨edge, w, blanks, split, white, all⟩
    | cons d front =>
      rw [List.cons_append, List.cons.injEq] at split
      obtain ⟨rfl, rfl⟩ := split
      rw [getLast?_cons_or] at edge
      exact .inr ⟨front, w, blanks, rfl, white, all, edge⟩
  · rintro (⟨edge, w, blanks, split, white, all⟩ | ⟨front, w, blanks, rfl, white, all, edge⟩)
    · exact ⟨[], w, blanks, split, white, all, edge⟩
    · refine ⟨c :: front, w, blanks, rfl, white, all, ?_⟩
      rwa [getLast?_cons_or]

/-- A match that opens in a piece and was none before joins `by` with the text behind the next fragment. -/
theorem opens_joined_iff {c : Char} {rest piece : List Char} {later : List (List Char)}
    (none : ¬ Opens (c :: rest)) (next : Pieces words (some c) rest (piece :: later)) :
    Opens (c :: piece ++ later.flatten) ↔
      later ≠ [] ∧ (∃ w blanks, c :: piece = 'b' :: 'y' :: w :: blanks ∧ isWhitespace w = true ∧
        ∀ d ∈ blanks, isWhitespace d = true) ∧ Parenthesised later.flatten := by
  rcases next.cases_tail with ⟨rfl, rfl⟩ | ⟨tail, behind, rfl, found, edge, rest⟩
  · rw [List.flatten_nil, List.append_nil]
    exact iff_of_false none fun ⟨more, _⟩ => more rfl
  · have shut : opening (c :: piece) = Option.none := opening_eq_none_of_tail none found
    rw [and_iff_right rest.ne_nil]
    constructor
    · rintro ⟨opened, opens, closed⟩
      rcases opening_append_cases opens with ⟨inner, here, -⟩ | ⟨w, blanks, more, whole, white, all, back⟩
      · rw [shut] at here
        cases here
      -- a boundary is behind the piece, and none behind `b` or `y`: the piece reaches over `by`
      · rw [List.cons_append, List.cons.injEq] at whole
        obtain ⟨rfl, whole⟩ := whole
        have word : ∀ {d}, words.isWord d = true → boundary words (some d) ≠ true := fun letter edge => by
          rw [boundary_some, letter] at edge
          cases edge
        cases piece with
        | nil => exact absurd edge (word (isWord_b words))
        | cons d piece =>
          rw [List.cons_append, List.cons.injEq] at whole
          obtain ⟨rfl, whole⟩ := whole
          cases piece with
          | nil => exact absurd edge (word (isWord_y words))
          | cons d piece =>
            rw [List.cons_append, List.cons.injEq] at whole
            obtain ⟨rfl, rfl⟩ := whole
            refine ⟨⟨d, piece, rfl, white, fun e member => all e (List.mem_append_left _ member)⟩, opened,
              ?_, closed⟩
            rw [back, List.dropWhile_append_of_pos fun e member => all e (List.mem_append_right _ member)]
            rfl
    -- the white space of the piece and that behind the fragment are one run
    · rintro ⟨⟨w, blanks, split, white, all⟩, opened, drop, closed⟩
      refine ⟨opened, ?_, closed⟩
      have whole : c :: piece ++ later.flatten =
          'b' :: 'y' :: w :: ((blanks ++ later.flatten.takeWhile isWhitespace) ++ '(' :: opened) := by
        rw [split, ← drop]
        simp
      rw [whole]
      refine opening_blanks white (fun d member => ?_) opened
      rcases List.mem_append.mp member with first | second
      · exact all d first
      · exact List.mem_takeWhile_imp second

theorem endsBy_nil : ¬ EndsBy words prev [] := by
  rintro ⟨front, w, blanks, split, -⟩
  cases front <;> cases split

/-- A match in the pieces joined as they are. -/
theorem Pieces.hasFragment_flatten_iff (found : Pieces words prev text parts) {other : Option Char}
    (same : boundary words other = boundary words prev) :
    HasFragment words other parts.flatten ↔ Rejoins words prev parts := by
  induction found generalizing other with
  | nil prev => simp [HasFragment, Rejoins]
  | @fragment prev text behind later edge found rest ih =>
    -- behind the fragment the matcher has `)` in front of it, and the joined text what was before: both no word
    rw [List.flatten_cons, List.nil_append, ih (same.trans (edge.trans (boundary_close words).symm)), Rejoins,
      or_iff_right fun here => endsBy_nil here.2.1]
  | @step prev c rest piece later none next ih =>
    have tail := @ih (some c) rfl
    rw [List.flatten_cons, Rejoins] at tail
    -- whether a match opens at `c` is a question only where a match may begin
    rw [List.flatten_cons, List.cons_append, HasFragment, tail, Rejoins, endsBy_cons, same]
    by_cases edge : boundary words prev = true
    · have joined := opens_joined_iff (fragmentAt_eq_none_iff.mp (none edge)) next
      rw [List.cons_append] at joined
      rw [joined]
      simp only [edge, true_and, or_and_right, and_or_left, or_assoc]
    · simp only [edge, Bool.false_eq_true, false_and, false_or]

/-! ### With a name -/

section Named

variable {name : List Char}

theorem byline_some (name : List Char) : byline (some name) = 'b' :: 'y' :: ' ' :: name := rfl

/-- A match begins in the front part or behind it. -/
theorem hasFragment_append (front back : List Char) (prev : Option Char) :
    HasFragment words prev (front ++ back) ↔
      (∃ before here, front = before ++ here ∧ here ≠ [] ∧ boundary words (before.getLast?.or prev) = true ∧
        Opens (here ++ back)) ∨ HasFragment words (front.getLast?.or prev) back := by
  induction front generalizing prev with
  | nil =>
    rw [List.nil_append, or_iff_right]
    · rfl
    · rintro ⟨before, here, split, more, -⟩
      exact more (List.append_eq_nil_iff.mp split.symm).2
  | cons c front ih =>
    rw [List.cons_append, HasFragment, ih, getLast?_cons_or, ← or_assoc]
    refine or_congr_left ⟨?_, ?_⟩
    · rintro (⟨edge, opens⟩ | ⟨before, here, rfl, more, edge, opens⟩)
      · exact ⟨[], c :: front, rfl, List.cons_ne_nil c front, edge, opens⟩
      · refine ⟨c :: before, here, rfl, more, ?_, opens⟩
        rwa [getLast?_cons_or]
    · rintro ⟨before, here, split, more, edge, opens⟩
      cases before with
      | nil =>
        obtain rfl : c :: front = here := split
        exact .inl ⟨edge, opens⟩
      | cons d before =>
        rw [List.cons_append, List.cons.injEq] at split
        obtain ⟨rfl, rfl⟩ := split
        rw [getLast?_cons_or] at edge
        exact .inr ⟨before, here, rfl, more, edge, opens⟩

theorem not_opens_named {c : Char} {rest piece : List Char} {later : List (List Char)}
    (none : ¬ Opens (c :: rest)) (next : Pieces words (some c) rest (piece :: later)) :
    ¬ Opens (c :: (byline (some name)).intercalate (piece :: later)) := by
  rcases next.cases_tail with ⟨rfl, rfl⟩ | ⟨tail, behind, rfl, found, edge, rest⟩
  · simpa [List.intercalate, List.intersperse] using none
  · have shut : opening (c :: piece) = Option.none := opening_eq_none_of_tail none found
    cases later with
    | nil => exact absurd rfl rest.ne_nil
    | cons second later =>
      rintro ⟨opened, opens, -⟩
      -- what follows the piece is the `b` of the `by` put in, which no opening reaches over
      have whole : c :: (byline (some name)).intercalate (piece :: second :: later) =
          (c :: piece) ++
            'b' :: ('y' :: ' ' :: name ++ (byline (some name)).intercalate (second :: later)) := by
        rw [List.intercalate_cons_cons, List.append_assoc]
        rfl
      rw [whole, opening_append_by (List.cons_ne_nil c piece), shut] at opens
      cases opens

theorem opens_named_iff {here next : List Char} (more : here ≠ []) (later : List (List Char)) :
    Opens (here ++ (byline (some name)).intercalate (next :: later)) ↔
      ∃ behind, opening (here ++ next) = some behind ∧
        (')' ∈ behind ∨ ')' ∈ later.flatten ∨ later ≠ [] ∧ ')' ∈ name) := by
  cases later with
  | nil => simp [Opens, List.intercalate, List.intersperse]
  | cons second later =>
    have nonempty : here ++ next ≠ [] := fun none => more (List.append_eq_nil_iff.mp none).1
    have whole : here ++ (byline (some name)).intercalate (next :: second :: later) =
        (here ++ next) ++
          'b' :: ('y' :: ' ' :: name ++ (byline (some name)).intercalate (second :: later)) := by
      rw [List.intercalate_cons_cons, byline_some]
      simp
    have members : ')' ∈ 'b' :: ('y' :: ' ' :: name ++ (byline (some name)).intercalate (second :: later)) ↔
        ')' ∈ (second :: later).flatten ∨ second :: later ≠ [] ∧ ')' ∈ name := by
      have closed : ')' ∈ byline (some name) ↔ ')' ∈ name := by simp [byline_some]
      rw [← List.cons_append, List.mem_append, mem_intercalate_iff, ← byline_some, closed]
      simp only [ne_eq, reduceCtorEq, not_false_eq_true, true_and]
      tauto
    -- the opening lies within the next piece, and is closed there or anywhere behind it
    rw [Opens, whole, opening_append_by nonempty]
    constructor
    · rintro ⟨opened, opens, closed⟩
      obtain ⟨behind, found, rfl⟩ := Option.map_eq_some_iff.mp opens
      rw [List.mem_append, members] at closed
      exact ⟨behind, found, closed⟩
    · rintro ⟨behind, found, closed⟩
      refine ⟨_, Option.map_eq_some_iff.mpr ⟨behind, found, rfl⟩, ?_⟩
      rwa [List.mem_append, members]

/-- A match in the pieces with the name put between them. -/
theorem Pieces.hasFragment_intercalate_iff (found : Pieces words prev text parts) {other : Option Char}
    (within : boundary words other = true → boundary words prev = true) :
    HasFragment words other ((byline (some name)).intercalate parts) ↔ Reopens words name other parts := by
  induction found generalizing other with
  | nil prev => simp [HasFragment, Reopens]
  | @fragment prev text behind later edge found rest ih =>
    cases later with
    | nil => exact absurd rfl rest.ne_nil
    | cons next later =>
      have last : (byline (some name)).getLast?.or other = (byline (some name)).getLast? := by
        rw [byline_some, List.getLast?_cons]
        rfl
      rw [List.intercalate_cons_cons, List.nil_append, hasFragment_append, last,
        ih fun _ => boundary_close words, Reopens]
      refine or_congr_left (exists_congr fun front => exists_congr fun back => ?_)
      refine and_congr_right fun split => and_congr_right fun more => ?_
      rw [opens_named_iff more]
      rfl
  | @step prev c rest piece later none next ih =>
    -- in the pieces themselves no match opens, so the one in question lies behind `c`
    have tail := @ih (some c) id
    rw [List.intercalate_cons_cons_left, HasFragment,
      or_iff_right fun here => not_opens_named (fragmentAt_eq_none_iff.mp (none (within here.1))) next here.2,
      tail]
    cases later with
    | nil => rfl
    | cons second later => rw [Reopens, Reopens, getLast?_cons_or]

end Named

theorem fragmentAt_of_opening {inner : List Char} (opens : opening text = some (inner ++ ')' :: behind))
    (flat : ')' ∉ inner) : fragmentAt text = some behind := by
  have stops : (inner ++ ')' :: behind).dropWhile (· ≠ ')') = ')' :: behind := by
    rw [dropWhile_append_stop (by decide), List.dropWhile_eq_nil_iff.mpr]
    · rfl
    · intro c inside
      exact decide_eq_true fun same => flat (same ▸ inside)
  rw [fragmentAt, opens, Option.bind_some, if_pos (by simp), stops]
  rfl

/-! ### White space at the ends -/

theorem fragmentAt_of_white {c : Char} (white : isWhitespace c = true) (rest : List Char) :
    fragmentAt (c :: rest) = none := by
  cases found : fragmentAt (c :: rest) with
  | none => rfl
  | some behind =>
    obtain ⟨rest', split, -⟩ := exists_cons_of_fragmentAt found
    cases split
    cases white

/-- White space in front of a text belongs to its first piece. -/
theorem Pieces.blanks {blanks piece : List Char} {later : List (List Char)}
    (white : ∀ c ∈ blanks, isWhitespace c = true) (edge : boundary words prev = true)
    (found : Pieces words prev text (piece :: later)) :
    Pieces words prev (blanks ++ text) ((blanks ++ piece) :: later) := by
  induction blanks generalizing prev with
  | nil => exact found
  | cons c blanks ih =>
    have front := white c List.mem_cons_self
    refine .step (fun _ => fragmentAt_of_white front _) (ih (fun d member => white d (.tail _ member)) ?_ ?_)
    · exact boundary_white words front
    · exact found.after ((boundary_white words front).trans edge.symm)

theorem Pieces.white {blanks : List Char} (white : ∀ c ∈ blanks, isWhitespace c = true) (prev : Option Char) :
    Pieces words prev blanks [blanks] := by
  induction blanks generalizing prev with
  | nil => exact .nil prev
  | cons c blanks ih =>
    refine .step (fun _ => fragmentAt_of_white (white c List.mem_cons_self) blanks) (ih ?_ (some c))
    exact fun d member => white d (.tail _ member)

theorem opens_append_white {blanks : List Char} (white : ∀ c ∈ blanks, isWhitespace c = true) :
    Opens (text ++ blanks) ↔ Opens text := by
  have flat : ')' ∉ blanks := fun member => absurd (white ')' member) (by decide)
  rw [Opens, Opens, opening_append_white white]
  simp [flat]

theorem Pieces.trailing {blanks : List Char} (white : ∀ c ∈ blanks, isWhitespace c = true)
    (found : Pieces words prev text parts) :
    ∃ others, Pieces words prev (text ++ blanks) others ∧
      ∀ sep : List Char, sep.intercalate others = sep.intercalate parts ++ blanks := by
  induction found with
  | nil prev =>
    refine ⟨[blanks], ?_, fun sep => by simp⟩
    exact .white white prev
  | @fragment prev text behind later edge found rest ih =>
    obtain ⟨others, rest', joined⟩ := ih
    obtain ⟨inner, opens, flat⟩ := fragmentAt_eq_some found
    refine ⟨[] :: others, .fragment edge (fragmentAt_of_opening ?_ flat) rest', fun sep => ?_⟩
    · rw [opening_append opens, List.append_assoc, List.cons_append]
    · rw [List.intercalate_cons_of_ne_nil rest'.ne_nil, List.intercalate_cons_of_ne_nil rest.ne_nil, joined]
      simp only [List.append_assoc]
  | @step prev c rest piece later none next ih =>
    obtain ⟨others, next', joined⟩ := ih
    cases others with
    | nil => exact absurd rfl next'.ne_nil
    | cons piece' later' =>
      refine ⟨(c :: piece') :: later', .step (fun edge => ?_) next', fun sep => ?_⟩
      · refine fragmentAt_eq_none_iff.mpr fun here => ?_
        exact fragmentAt_eq_none_iff.mp (none edge) ((opens_append_white white).mp here)
      · rw [List.intercalate_cons_cons_left, List.intercalate_cons_cons_left, joined, List.cons_append]

end Webfang.Domain.ExcerptRepair
