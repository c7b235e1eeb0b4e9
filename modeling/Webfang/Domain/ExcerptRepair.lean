import Webfang.Domain.BylineFragments
import Webfang.Domain.ScrapedContent
import Webfang.Library.Squeeze

/-!
# Repaired bylines

`repair_empty_byline` takes the fragments out of an excerpt, or puts `by` and the author's name in their place,
and joins the words that are left. A second repair finds what the first has brought together.
-/
namespace Webfang.Domain.ExcerptRepair

open Library Text Backtrack Squeeze

/-- `regex` replaces each match of the pattern, from left to right. -/
def ReplacesFragments (words : WordClass) (crates : ExportCrates) : Prop :=
  ∀ text replacement, crates.replaceAll emptyBylineFragment text replacement =
    String.ofList (replaceAll words text.toList replacement.toList)

/-! ### White space -/

/-- The text with one space for every run of white space, and none at the ends. -/
def tidy (text : List Char) : List Char := (squeeze isWhitespace true text).rdropWhile isWhitespace

def wordsOf (text : List Char) : List (List Char) :=
  (text.splitOnP isWhitespace).filter fun word => !word.isEmpty

def joinWords (words : List (List Char)) : List Char := [' '].intercalate words

theorem isWhitespace_space : isWhitespace ' ' = true := by decide

theorem joinWords_cons (word : List Char) (words : List (List Char)) :
    joinWords (word :: words) = word ++ words.flatMap (' ' :: ·) := by
  induction words generalizing word with
  | nil => simp [joinWords]
  | cons next words ih =>
    rw [joinWords, List.intercalate_cons_cons, ← joinWords, ih, List.flatMap_cons]
    simp

theorem isWhitespace_last {c : Char} {rest : List Char}
    (last : ∀ d ∈ (c :: rest).getLast?, isWhitespace d = false) :
    ∀ d ∈ rest.getLast?, isWhitespace d = false := by
  intro d member
  refine last d ?_
  rw [List.getLast?_cons, Option.mem_def.mp member]
  rfl

/-- The words of a text that does not end in white space, behind white space and behind none. -/
theorem squeeze_eq_words {text : List Char} (last : ∀ c ∈ text.getLast?, isWhitespace c = false) :
    squeeze isWhitespace true text = joinWords (wordsOf text) ∧
      ∀ head later, text.splitOnP isWhitespace = head :: later →
        squeeze isWhitespace false text =
          head ++ (later.filter fun word => !word.isEmpty).flatMap (' ' :: ·) := by
  induction text with
  | nil =>
    refine ⟨rfl, fun head later split => ?_⟩
    cases split
    rfl
  | cons c rest ih =>
    -- `behind` is the text behind a run of white space, `front` the text behind a word
    obtain ⟨behind, front⟩ := ih (isWhitespace_last last)
    cases white : isWhitespace c with
    | true =>
      have split : (c :: rest).splitOnP isWhitespace = [] :: rest.splitOnP isWhitespace := by
        rw [List.splitOnP_cons_eq_if_modifyHead, if_pos white]
      have same : wordsOf (c :: rest) = wordsOf rest := by
        rw [wordsOf, split]
        rfl
      refine ⟨by rw [same, ← behind, squeeze_blank white]; rfl, fun head later parts => ?_⟩
      rw [split] at parts
      cases parts
      rw [squeeze_blank white, behind, ← wordsOf]
      -- the text ends with a word
      cases words : wordsOf rest with
      | cons word words => rw [joinWords_cons]; rfl
      | nil =>
        have gone := filter_squeeze isWhitespace_space rest true
        rw [behind, words] at gone
        cases ends : rest.getLast? with
        | none =>
          obtain rfl := List.getLast?_eq_none_iff.mp ends
          rw [last c rfl] at white
          cases white
        | some d =>
          have member : d ∈ rest.filter fun c => !isWhitespace c :=
            List.mem_filter.mpr ⟨List.mem_of_getLast? ends, by rw [isWhitespace_last last d ends]; rfl⟩
          rw [← gone] at member
          cases member
    | false =>
      cases parts : rest.splitOnP isWhitespace with
      | nil => exact absurd parts (List.splitOnP_ne_nil isWhitespace rest)
      | cons head later =>
        have split : (c :: rest).splitOnP isWhitespace = (c :: head) :: later := by
          rw [List.splitOnP_cons_eq_if_modifyHead, if_neg (by simp [white]), parts]
          rfl
        have whole := front head later parts
        refine ⟨?_, fun head' later' parts' => ?_⟩
        · rw [squeeze_other white, whole, wordsOf, split, List.filter_cons_of_pos (by simp),
          joinWords_cons]
          rfl
        · rw [split] at parts'
          cases parts'
          rw [squeeze_other white, whole]
          rfl

/-- A text without doubled or other white space stays as it is. -/
theorem squeeze_of_clean {text : List Char} (plain : ∀ c ∈ text, isWhitespace c = true → c = ' ')
    (single : ¬ [' ', ' '] <:+: text) {inRun : Bool}
    (opening : inRun = true → ∀ c ∈ text.head?, isWhitespace c = false) :
    squeeze isWhitespace inRun text = text := by
  induction text generalizing inRun with
  | nil => rfl
  | cons c rest ih =>
    have rest' : ∀ {inRun}, (inRun = true → ∀ d ∈ rest.head?, isWhitespace d = false) →
        squeeze isWhitespace inRun rest = rest := fun {_} =>
      ih (fun d member => plain d (.tail _ member)) fun within =>
        single (within.trans (List.suffix_cons c rest).isInfix)
    cases white : isWhitespace c with
    | false => rw [squeeze_other white, rest' fun run => by cases run]
    | true =>
      obtain rfl := plain c List.mem_cons_self white
      cases inRun with
      | true =>
        rw [opening rfl ' ' rfl] at white
        cases white
      | false =>
        rw [squeeze_blank white, rest']
        · rfl
        · intro _ d member
          cases other : isWhitespace d with
          | false => rfl
          | true =>
            obtain rfl := plain d (.tail _ (List.mem_of_head? member)) other
            obtain ⟨later, rfl⟩ := List.head?_eq_some_iff.mp member
            exact absurd ⟨[], later, rfl⟩ single

theorem toList_join_splitWhitespace (text : String) :
    (" ".intercalate (Text.splitWhitespace text)).toList = joinWords (wordsOf text.toList) := by
  rw [String.toList_intercalate, Text.splitWhitespace, List.map_map]
  have same : String.toList ∘ String.ofList = id := funext fun word => String.toList_ofList
  rw [same, List.map_id]
  rfl

theorem toList_normalizeWhitespace (text : String) :
    (normalizeWhitespace (Text.trim text)).toList = tidy text.toList := by
  have chars : (Text.trim text).toList = trimEnds isWhitespace text.toList := String.toList_ofList
  have inner : squeeze isWhitespace true (text.toList.rdropWhile isWhitespace) =
      squeeze isWhitespace true (trimEnds isWhitespace text.toList) := by
    rw [trimEnds, ← dropWhile_rdropWhile]
    conv_lhs =>
      rw [← List.takeWhile_append_dropWhile (p := isWhitespace) (l := text.toList.rdropWhile isWhitespace)]
    exact squeeze_run (fun c member => List.mem_takeWhile_imp member) _
  have trimmed : trimEnds isWhitespace (trimEnds isWhitespace text.toList) = trimEnds isWhitespace text.toList :=
    (trimEnds_rdropWhile (text.toList.dropWhile isWhitespace)).trans (trimEnds_dropWhile text.toList)
  obtain ⟨opening, closing⟩ := (trimEnds_eq_self_iff isWhitespace _).mp trimmed
  rw [tidy, rdropWhile_squeeze isWhitespace_space, inner, normalizeWhitespace, chars]
  split
  · rw [toList_join_splitWhitespace, chars]
    exact (squeeze_eq_words closing).1.symm
  -- the clean text is returned as it is, and squeezing leaves it alone
  next clean =>
    simp only [Bool.or_eq_true, List.any_eq_true, Bool.and_eq_true, bne_iff_ne, Text.contains, chars,
      decide_eq_true_eq, not_or] at clean
    rw [chars]
    refine (squeeze_of_clean (fun c member white => ?_) clean.2 fun _ => opening).symm
    by_contra other
    exact clean.1 ⟨c, member, white, other⟩

variable {words : WordClass} {prev : Option Char} {text behind : List Char} {parts : List (List Char)}

/-! ### Squeezed texts -/

theorem opening_of_apart {c d : Char} {rest : List Char} (apart : ¬ (c = 'b' ∧ d = 'y')) :
    opening (c :: d :: rest) = none := by
  rw [opening.eq_def]
  split
  next split => cases split; exact absurd ⟨rfl, rfl⟩ apart
  next => rfl

/-- Behind white space, what is not white is not touched. -/
theorem parenthesis_squeeze (text : List Char) :
    (match (squeeze isWhitespace true text).dropWhile isWhitespace with
      | '(' :: behind => some behind
      | _ => none) = (match text.dropWhile isWhitespace with
      | '(' :: behind => some behind
      | _ => none).map (squeeze isWhitespace false) := by
  rw [dropWhile_squeeze isWhitespace_space]
  cases rest : text.dropWhile isWhitespace with
  | nil => rfl
  | cons d behind =>
    have halts : isWhitespace d = false := by
      have := List.head?_dropWhile_not isWhitespace text
      rw [rest] at this
      simpa using this
    rw [squeeze_other halts]
    split
    next same =>
      cases same
      rfl
    next apart =>
      split
      next same =>
        cases same
        exact absurd rfl (apart _)
      next => rfl

theorem opening_squeeze (c : Char) (rest : List Char) :
    opening (c :: squeeze isWhitespace false rest) =
      (opening (c :: rest)).map (squeeze isWhitespace false) := by
  cases rest with
  | nil =>
    have short : opening [c] = none := by simp [opening]
    rw [squeeze, short]
    rfl
  | cons d rest =>
    by_cases apart : c = 'b' ∧ d = 'y'
    · obtain ⟨rfl, rfl⟩ := apart
      rw [squeeze_other (by decide)]
      cases rest with
      | nil => rfl
      | cons w rest =>
        cases white : isWhitespace w with
        | true =>
          rw [squeeze_blank white, if_neg Bool.false_ne_true, List.singleton_append, opening,
            if_pos isWhitespace_space, opening, if_pos white]
          exact parenthesis_squeeze rest
        | false =>
          have other : ¬ isWhitespace w = true := by simp [white]
          rw [squeeze_other white, opening, if_neg other, opening, if_neg other]
          rfl
    · rw [opening_of_apart apart, Option.map_none]
      cases white : isWhitespace d with
      | false => rw [squeeze_other white, opening_of_apart apart]
      | true =>
        rw [squeeze_blank white, if_neg Bool.false_ne_true, List.singleton_append]
        exact opening_of_apart fun same => absurd same.2 (by decide)

theorem squeeze_close (front back : List Char) (inRun : Bool) :
    squeeze isWhitespace inRun (front ++ ')' :: back) =
      squeeze isWhitespace inRun front ++ ')' :: squeeze isWhitespace false back := by
  rw [squeeze_append, squeeze_other (by decide)]

theorem fragmentAt_squeeze (c : Char) (rest : List Char) :
    fragmentAt (c :: squeeze isWhitespace false rest) =
      (fragmentAt (c :: rest)).map (squeeze isWhitespace false) := by
  cases found : fragmentAt (c :: rest) with
  | some behind =>
    obtain ⟨inner, opens, flat⟩ := fragmentAt_eq_some found
    have flat' : ')' ∉ squeeze isWhitespace false inner := fun inside => flat (mem_squeeze (by decide) inside).1
    refine fragmentAt_of_opening ?_ flat'
    rw [opening_squeeze, opens, Option.map_some, squeeze_close]
  | none =>
    rw [fragmentAt_eq_none_iff] at found
    refine fragmentAt_eq_none_iff.mpr ?_
    rintro ⟨opened, opens, closed⟩
    rw [opening_squeeze] at opens
    obtain ⟨behind, opens', rfl⟩ := Option.map_eq_some_iff.mp opens
    exact found ⟨behind, opens', (mem_squeeze (by decide) closed).1⟩

theorem Pieces.squeezed {piece : List Char} {later : List (List Char)}
    (found : Pieces words prev text (piece :: later)) {inRun : Bool}
    (edge : inRun = true → boundary words prev = true) :
    Pieces words prev (squeeze isWhitespace inRun text)
      (squeeze isWhitespace inRun piece :: later.map (squeeze isWhitespace false)) := by
  generalize whole : piece :: later = parts at found
  induction found generalizing piece later inRun with
  | nil prev =>
    cases whole
    exact .nil prev
  | @fragment prev text behind later' edge' found rest ih =>
    cases whole
    obtain ⟨rest', rfl, -⟩ := exists_cons_of_fragmentAt found
    cases later' with
    | nil => exact absurd rfl rest.ne_nil
    | cons next later =>
      rw [squeeze_other (by decide)]
      refine .fragment edge' ?_ (ih (fun run => by cases run) rfl)
      rw [fragmentAt_squeeze, found]
      rfl
  | @step prev c rest piece' later' none next ih =>
    cases whole
    cases white : isWhitespace c with
    | true =>
      -- a character that goes, or becomes the space, is no place for a match
      have behind := @ih piece' later' true (fun _ => boundary_white words white) rfl
      rw [squeeze_blank white, squeeze_blank white]
      cases inRun with
      | true => exact behind.after ((edge rfl).trans (boundary_white words white).symm)
      | false =>
        refine .step (fun _ => fragmentAt_of_white isWhitespace_space _) (behind.after ?_)
        rw [boundary_white words white, boundary_white words isWhitespace_space]
    | false =>
      rw [squeeze_other white, squeeze_other white]
      refine .step (fun edge' => ?_) (ih (fun run => by cases run) rfl)
      rw [fragmentAt_squeeze, none edge']
      rfl

/-! ### Repairs and white space -/

theorem replaceAll_eq (found : Pieces words none text parts) (replacement : List Char) :
    replaceAll words text replacement = replacement.intercalate parts := by
  rw [replaceAll, (pieces_spec words text).unique found]

theorem repairEmptyByline_eq {crates : ExportCrates} (documented : ReplacesFragments words crates)
    (excerpt : String) (author : Option String) :
    repairEmptyByline crates excerpt author =
      String.ofList (tidy (replaceAll words excerpt.toList (byline (author.map String.toList)))) := by
  obtain ⟨replacement, chars, unfolded⟩ : ∃ replacement : String,
      replacement.toList = byline (author.map String.toList) ∧
        repairEmptyByline crates excerpt author =
          normalizeWhitespace (Text.trim (crates.replaceAll emptyBylineFragment excerpt replacement)) := by
    cases author with
    | none => exact ⟨"", rfl, rfl⟩
    | some name => exact ⟨"by " ++ name, String.toList_append, rfl⟩
  rw [unfolded, ← String.toList_inj, String.toList_ofList, toList_normalizeWhitespace, documented,
    String.toList_ofList, chars]

theorem tidy_congr {other : List Char}
    (same : squeeze isWhitespace true text = squeeze isWhitespace true other) : tidy text = tidy other := by
  rw [tidy, tidy, same]

theorem tidy_append_blanks {blanks : List Char} (white : ∀ c ∈ blanks, isWhitespace c = true)
    (text : List Char) : tidy (text ++ blanks) = tidy text := by
  rw [tidy, tidy, rdropWhile_squeeze isWhitespace_space, rdropWhile_squeeze isWhitespace_space]
  congr 1
  induction blanks using List.reverseRecOn with
  | nil => rw [List.append_nil]
  | append_singleton blanks c ih =>
    rw [← List.append_assoc, List.rdropWhile_concat_pos _ _ _ (white c (by simp))]
    exact ih fun d member => white d (List.mem_append_left _ member)

theorem squeeze_intercalate (sep piece : List Char) (later : List (List Char)) {inner outer : Bool}
    (within : inner = true → outer = true) :
    squeeze isWhitespace outer
        (sep.intercalate (squeeze isWhitespace inner piece :: later.map (squeeze isWhitespace false))) =
      squeeze isWhitespace outer (sep.intercalate (piece :: later)) := by
  induction later generalizing piece inner outer with
  | nil =>
    have alone := squeeze_squeeze_append isWhitespace_space piece [] within
    simpa using alone
  | cons next later ih =>
    have rest : ∀ run,
        squeeze isWhitespace run (sep.intercalate ((next :: later).map (squeeze isWhitespace false))) =
        squeeze isWhitespace run (sep.intercalate (next :: later)) := fun run =>
      ih next fun no => absurd no Bool.false_ne_true
    rw [List.map_cons] at rest
    rw [List.map_cons, List.intercalate_cons_cons, List.intercalate_cons_cons, List.append_assoc,
      squeeze_squeeze_append isWhitespace_space piece _ within, ← List.append_assoc, squeeze_congr rest]

/-- White space that the first repair tidies up is of no consequence to the second. -/
theorem tidy_replaceAll_tidy (text replacement : List Char) :
    tidy (replaceAll words (tidy text) replacement) = tidy (replaceAll words text replacement) := by
  have squeezed : tidy (replaceAll words (squeeze isWhitespace true text) replacement) =
      tidy (replaceAll words text replacement) := by
    obtain ⟨piece, later, -, found⟩ := pieces_cons words text
    rw [replaceAll_eq found, replaceAll_eq (found.squeezed fun _ => boundary_none words)]
    exact tidy_congr (squeeze_intercalate _ piece later id)
  -- behind the squeezed text, its last space belongs to the last piece
  have split := List.rdropWhile_append_rtakeWhile (p := isWhitespace) (l := squeeze isWhitespace true text)
  have white : ∀ c ∈ (squeeze isWhitespace true text).rtakeWhile isWhitespace, isWhitespace c = true :=
    fun c member => List.mem_rtakeWhile_imp member
  obtain ⟨others, found, joined⟩ := (pieces_spec words (tidy text)).trailing white
  rw [tidy, split] at found
  rw [← squeezed, replaceAll_eq found, joined, tidy_append_blanks white]
  rfl

/-! ### What is not white space -/

def bare (text : List Char) : List Char := text.filter fun c => !isWhitespace c

theorem bare_append (front back : List Char) : bare (front ++ back) = bare front ++ bare back :=
  List.filter_append ..

theorem bare_of_white {blanks : List Char} (white : ∀ c ∈ blanks, isWhitespace c = true) : bare blanks = [] :=
  List.filter_eq_nil_iff.mpr fun c member => by simp [white c member]

theorem bare_tidy (text : List Char) : bare (tidy text) = bare text := by
  have split := List.rdropWhile_append_rtakeWhile (p := isWhitespace) (l := squeeze isWhitespace true text)
  have kept : bare (squeeze isWhitespace true text) = bare text := filter_squeeze isWhitespace_space text true
  rw [← kept, ← split, bare_append, bare_of_white fun c member => List.mem_rtakeWhile_imp member,
    List.append_nil]
  rfl

theorem count_bare (text : List Char) : (bare text).count ')' = text.count ')' :=
  List.count_filter (by decide)

theorem not_mem_bare (flat : ')' ∉ text) : ')' ∉ bare text := fun member => flat (List.mem_filter.mp member).1

theorem bare_fragment (found : fragmentAt text = some behind) :
    ∃ inner, bare text = ('b' :: 'y' :: '(' :: inner) ++ ')' :: bare behind ∧ ')' ∉ inner := by
  obtain ⟨w, blanks, inner, rfl, white, all, flat⟩ := fragmentAt_split found
  refine ⟨bare inner, ?_, not_mem_bare flat⟩
  have spaces : bare (w :: blanks) = [] := bare_of_white fun c member => by
    rcases List.mem_cons.mp member with rfl | later
    · exact white
    · exact all c later
  have whole : 'b' :: 'y' :: w :: (blanks ++ '(' :: (inner ++ ')' :: behind)) =
      ['b', 'y'] ++ ((w :: blanks) ++ (['('] ++ (inner ++ ([')'] ++ behind)))) := by simp
  rw [whole, bare_append, bare_append, spaces, bare_append, bare_append, bare_append]
  rfl

/-! ### Closing parentheses -/

theorem Pieces.count_close (found : Pieces words prev text parts) :
    text.count ')' + 1 = parts.flatten.count ')' + parts.length := by
  induction found with
  | nil prev => rfl
  | @fragment prev text behind later edge found rest ih =>
    obtain ⟨inner, split, flat⟩ := bare_fragment found
    rw [← count_bare, split, List.count_append, List.count_cons_self, count_bare, List.flatten_cons,
      List.nil_append, List.length_cons]
    have none : ('b' :: 'y' :: '(' :: inner).count ')' = 0 := List.count_eq_zero.mpr (by simpa using flat)
    omega
  | @step prev c rest piece later none next ih =>
    rw [List.flatten_cons, List.length_cons] at ih
    rw [List.flatten_cons, List.length_cons, List.cons_append, List.count_cons, List.count_cons]
    omega

section Fixed

variable {sep front back : List Char} (closes : bare sep = front ++ ')' :: back) (first : ')' ∉ front)
  (last : ')' ∉ back)
include closes first last

omit last in
/-- A separator that has one parenthesis and comes to the same as the first fragment up to there. -/
theorem bare_step {piece tail shift next : List Char} (found : fragmentAt tail = some behind)
    (flat : ')' ∉ shift) (same : bare (piece ++ tail) = shift ++ bare (piece ++ (sep ++ next))) :
    (∃ inner, bare piece ++ ('b' :: 'y' :: '(' :: inner) = shift ++ bare piece ++ front ∧ ')' ∉ inner) ∧
      bare behind = back ++ bare next := by
  obtain ⟨inner, split, plain⟩ := bare_fragment found
  have none : ('b' :: 'y' :: '(' :: inner).count ')' = 0 := List.count_eq_zero.mpr (by simpa using plain)
  have even : (bare piece ++ ('b' :: 'y' :: '(' :: inner)).count ')' =
      (shift ++ bare piece ++ front).count ')' := by
    rw [List.count_append, List.count_append, List.count_append, none, List.count_eq_zero.mpr flat,
      List.count_eq_zero.mpr first]
    omega
  have joined : (bare piece ++ ('b' :: 'y' :: '(' :: inner)) ++ ')' :: bare behind =
      (shift ++ bare piece ++ front) ++ ')' :: (back ++ bare next) := by
    rw [bare_append, bare_append, bare_append, split, closes] at same
    simpa using same
  -- both texts are cut at the parenthesis that as many stand in front of
  obtain ⟨opening, rest⟩ := append_cons_inj_of_count joined even
  exact ⟨⟨inner, opening, plain⟩, rest⟩

/-- The separator ends with its parenthesis: what follows it would move from piece to piece to the end. -/
theorem Pieces.nothing_behind {piece : List Char} {later : List (List Char)}
    (found : Pieces words prev text (piece :: later))
    (same : bare text = back ++ bare (sep.intercalate (piece :: later))) :
    back = [] := by
  induction later generalizing prev text piece with
  | nil =>
    rcases found.cases_tail with ⟨-, rfl⟩ | ⟨tail, behind, -, -, -, rest⟩
    · rw [List.intercalate_singleton] at same
      exact List.self_eq_append_left.mp same
    · exact absurd rfl rest.ne_nil
  | cons next later ih =>
    rcases found.cases_tail with ⟨none, -⟩ | ⟨tail, behind, rfl, fragment, -, rest⟩
    · cases none
    · rw [List.intercalate_cons_cons, List.append_assoc] at same
      exact ih rest (bare_step closes first fragment last same).2

end Fixed

/-- A text that comes to the same with its fragments replaced has the first of them for a separator. -/
theorem Pieces.bare_byline {sep piece next : List Char} {later : List (List Char)}
    (found : Pieces words prev text (piece :: next :: later))
    (same : bare text = bare (sep.intercalate (piece :: next :: later))) :
    ∃ inner, bare sep = 'b' :: 'y' :: '(' :: (inner ++ [')']) ∧ ')' ∉ inner := by
  -- a fragment has one closing parenthesis, and so has what replaces it
  have once : sep.count ')' = 1 := by
    have many := found.count_close
    rw [← count_bare, same, count_bare, count_intercalate, Nat.add_assoc, Nat.add_left_cancel_iff,
      List.length_cons (a := piece), Nat.add_right_cancel_iff] at many
    exact Nat.eq_of_mul_eq_mul_left (Nat.succ_pos later.length) (many.trans (Nat.mul_one _).symm)
  have member : ')' ∈ bare sep := List.count_pos_iff.mp (by rw [count_bare, once]; exact Nat.one_pos)
  obtain ⟨front, back, closes, first⟩ := List.eq_append_cons_of_mem member
  have last : ')' ∉ back := by
    have count := count_bare sep
    rw [once, closes, List.count_append, List.count_cons_self] at count
    exact List.count_eq_zero.mp (by omega)
  rcases found.cases_tail with ⟨none, -⟩ | ⟨tail, behind, rfl, fragment, -, rest⟩
  · cases none
  · rw [List.intercalate_cons_cons, List.append_assoc] at same
    obtain ⟨⟨inner, opening, plain⟩, shift⟩ :=
      bare_step closes first fragment List.not_mem_nil same
    obtain rfl := rest.nothing_behind closes first last shift
    rw [List.nil_append, List.append_cancel_left_eq] at opening
    refine ⟨inner, ?_, plain⟩
    rw [closes, ← opening]
    rfl

/-! ### Names in parentheses -/

/-- But for white space, the name is in one pair of parentheses. -/
def Parenthetical (name : List Char) : Prop := ∃ inner, bare name = '(' :: (inner ++ [')']) ∧ ')' ∉ inner

section Named

variable {name : List Char}

theorem Parenthetical.split (one : Parenthetical name) :
    ∃ lead inner trail, name = lead ++ '(' :: (inner ++ ')' :: trail) ∧ (∀ c ∈ lead, isWhitespace c = true) ∧
      ')' ∉ inner ∧ ∀ c ∈ trail, isWhitespace c = true := by
  obtain ⟨inner, whole, flat⟩ := one
  obtain ⟨lead, rest, rfl, white, -, rest_eq⟩ := List.filter_eq_cons_iff.mp whole
  obtain ⟨within, ends, rfl, rfl, ends_eq⟩ := List.filter_eq_append_iff.mp rest_eq
  obtain ⟨gap, trail, rfl, blank, -, trail_eq⟩ := List.filter_eq_cons_iff.mp ends_eq
  refine ⟨lead, within ++ gap, trail, by simp, fun c member => ?_, fun member => ?_, fun c member => ?_⟩
  · simpa using white c member
  · rcases List.mem_append.mp member with first | second
    · exact flat (List.mem_filter.mpr ⟨first, by decide⟩)
    · exact absurd (blank ')' second) (by decide)
  · simpa using List.filter_eq_nil_iff.mp trail_eq c member

variable {lead inner trail : List Char} (white : ∀ c ∈ lead, isWhitespace c = true) (flat : ')' ∉ inner)
  (blank : ∀ c ∈ trail, isWhitespace c = true)

include white flat in
theorem fragmentAt_byline (back : List Char) :
    fragmentAt (byline (some (lead ++ '(' :: (inner ++ ')' :: trail))) ++ back) = some (trail ++ back) := by
  refine fragmentAt_of_opening ?_ flat
  have whole : byline (some (lead ++ '(' :: (inner ++ ')' :: trail))) ++ back =
      'b' :: 'y' :: ' ' :: (lead ++ '(' :: (inner ++ ')' :: (trail ++ back))) := by simp [byline_some]
  rw [whole, opening_blanks isWhitespace_space white]

include white flat blank

/-- The pieces are the same again, but for the white space at the end of the name. -/
theorem Pieces.named {piece : List Char} {later : List (List Char)}
    (found : Pieces words prev text (piece :: later)) :
    Pieces words prev ((byline (some (lead ++ '(' :: (inner ++ ')' :: trail)))).intercalate (piece :: later))
      (piece :: later.map (trail ++ ·)) := by
  generalize whole : piece :: later = parts at found
  induction found generalizing piece later with
  | nil prev =>
    cases whole
    exact .nil prev
  | @fragment prev text behind later' edge found rest ih =>
    cases whole
    cases later' with
    | nil => exact absurd rfl rest.ne_nil
    | cons next later =>
      rw [List.intercalate_cons_cons, List.nil_append]
      exact .fragment edge (fragmentAt_byline white flat _) (.blanks blank (boundary_close words) (ih rfl))
  | @step prev c rest piece' later' none next ih =>
    cases whole
    rw [List.intercalate_cons_cons_left]
    exact .step (fun edge => fragmentAt_eq_none_iff.mpr
      (not_opens_named (fragmentAt_eq_none_iff.mp (none edge)) next)) (ih rfl)

end Named

/-- White space at the end of the name may stand there twice. -/
theorem squeeze_trailing {front trail : List Char} (blank : ∀ c ∈ trail, isWhitespace c = true)
    (piece : List Char) (later : List (List Char)) (inRun : Bool) :
    squeeze isWhitespace inRun ((front ++ trail).intercalate (piece :: later.map (trail ++ ·))) =
      squeeze isWhitespace inRun ((front ++ trail).intercalate (piece :: later)) := by
  induction later generalizing piece inRun with
  | nil => rfl
  | cons next later ih =>
    rw [List.map_cons, List.intercalate_cons_cons, List.intercalate_cons_cons, intercalate_append]
    generalize inner : (front ++ trail).intercalate (next :: later.map (trail ++ ·)) = rest at ih ⊢
    calc squeeze isWhitespace inRun (piece ++ (front ++ trail) ++ (trail ++ rest))
        = squeeze isWhitespace inRun ((piece ++ front) ++ (trail ++ (trail ++ rest))) := by
          simp only [List.append_assoc]
      _ = squeeze isWhitespace inRun ((piece ++ front) ++ (trail ++ rest)) :=
          squeeze_congr (fun run => squeeze_run_twice blank run rest) _ _
      _ = squeeze isWhitespace inRun (piece ++ (front ++ trail) ++ rest) := by simp only [List.append_assoc]
      _ = squeeze isWhitespace inRun
            (piece ++ (front ++ trail) ++ (front ++ trail).intercalate (next :: later)) :=
          squeeze_congr (fun run => inner ▸ ih next run) _ _

/-! ### Repairs of repairs -/

section Repairs

variable (words)

/-- The first repair leaves no fragment behind, or the name it has put in is replaced by itself. -/
def Settled (excerpt : List Char) (author : Option (List Char)) : Prop :=
  match author with
  | none => ¬ Rejoins words none (pieces words excerpt)
  | some name => Parenthetical name ∨ ¬ Reopens words name none (pieces words excerpt)

theorem replaceAll_none (excerpt : List Char) :
    replaceAll words excerpt [] = (pieces words excerpt).flatten := by
  rw [replaceAll]
  generalize pieces words excerpt = parts
  cases parts with
  | nil => rfl
  | cons piece later =>
    induction later generalizing piece with
    | nil => simp
    | cons next later ih =>
      rw [List.intercalate_cons_cons, ih, List.append_nil, List.flatten_cons (l := piece)]

variable {words} in
theorem replaceAll_of_none (none : ¬ HasFragment words Option.none text) (replacement : List Char) :
    replaceAll words text replacement = text := by
  rw [replaceAll, pieces_eq_singleton none, List.intercalate_singleton]

variable {words} in
/-- A fragment that is replaced by the same, but for white space. -/
theorem bare_of_fixed {replacement : List Char} (some : HasFragment words Option.none text)
    (fixed : tidy (replaceAll words text replacement) = tidy text) :
    ∃ inner, bare replacement = 'b' :: 'y' :: '(' :: (inner ++ [')']) ∧ ')' ∉ inner := by
  obtain ⟨piece, later, all, found⟩ := pieces_cons words text
  have many := found.hasFragment_iff.mp some
  have same := congrArg bare fixed
  rw [bare_tidy, bare_tidy, replaceAll, all] at same
  cases later with
  | nil => exact absurd rfl many
  | cons next later => exact found.bare_byline same.symm

theorem tidy_replaceAll_of_parenthetical {name : List Char} (one : Parenthetical name) (excerpt : List Char) :
    tidy (replaceAll words (replaceAll words excerpt (byline (some name))) (byline (some name))) =
      tidy (replaceAll words excerpt (byline (some name))) := by
  obtain ⟨lead, inner, trail, rfl, white, flat, blank⟩ := one.split
  obtain ⟨piece, later, -, found⟩ := pieces_cons words excerpt
  rw [replaceAll_eq found, replaceAll_eq (found.named white flat blank)]
  refine tidy_congr ?_
  have whole : byline (some (lead ++ '(' :: (inner ++ ')' :: trail))) =
      ('b' :: 'y' :: ' ' :: (lead ++ '(' :: (inner ++ [')']))) ++ trail := by simp [byline_some]
  rw [whole]
  exact squeeze_trailing blank piece later true

theorem tidy_twice_iff (excerpt : List Char) (author : Option (List Char)) :
    tidy (replaceAll words (replaceAll words excerpt (byline author)) (byline author)) =
        tidy (replaceAll words excerpt (byline author)) ↔
      Settled words excerpt author := by
  have found := pieces_spec words excerpt
  cases author with
  | none =>
    have fragments := found.hasFragment_flatten_iff rfl
    rw [← replaceAll_none] at fragments
    rw [Settled, ← fragments, byline]
    constructor
    -- without a name, a fragment that is left is taken out
    · intro fixed some
      obtain ⟨inner, nothing, -⟩ := bare_of_fixed some fixed
      cases nothing
    · intro none
      rw [replaceAll_of_none none]
  | some name =>
    have fragments : HasFragment words Option.none (replaceAll words excerpt (byline (some name))) ↔
        Reopens words name Option.none (pieces words excerpt) := found.hasFragment_intercalate_iff id
    rw [Settled, ← fragments]
    constructor
    -- a fragment that is left is replaced by the name, which then is in parentheses itself
    · intro fixed
      refine or_iff_not_imp_right.mpr fun more => ?_
      obtain ⟨inner, whole, flat⟩ := bare_of_fixed (not_not.mp more) fixed
      exact ⟨inner, List.cons.inj (List.cons.inj whole).2 |>.2, flat⟩
    · rintro (one | none)
      · exact tidy_replaceAll_of_parenthetical words one excerpt
      · rw [replaceAll_of_none none]

variable {words} in
/-- A second repair changes nothing exactly when the excerpt is settled. -/
theorem repairEmptyByline_idempotent_iff {crates : ExportCrates} (documented : ReplacesFragments words crates)
    (excerpt : String) (author : Option String) :
    repairEmptyByline crates (repairEmptyByline crates excerpt author) author =
        repairEmptyByline crates excerpt author ↔
      Settled words excerpt.toList (author.map String.toList) := by
  -- between the two repairs the white space need not be tidied
  rw [repairEmptyByline_eq documented, repairEmptyByline_eq documented, String.toList_ofList,
    tidy_replaceAll_tidy, String.ofList_inj]
  exact tidy_twice_iff words _ _

end Repairs

namespace ShortExcerpts

/-- `regex`, and none of the other crates. -/
def crates : ExportCrates where
  urls :=
    { Url := Unit
      normalize := fun _ _ => none
      parse := fun _ => none
      path := fun _ => ""
      setPath := fun url _ => url
      render := fun _ => "" }
  hostStr _ := none
  parseError _ := ""
  fromStr _ := none
  toString _ := ""
  sha256Hex _ := ""
  replaceAll pattern text replacement :=
    if pattern = emptyBylineFragment then String.ofList (replaceAll .asciiOnly text.toList replacement.toList)
    else text

theorem replacesFragments : ReplacesFragments .asciiOnly crates := fun text replacement => by simp [crates]

theorem about_dropped :
    repairEmptyByline crates (repairEmptyByline crates "...by  (about)" none) none =
      repairEmptyByline crates "...by  (about)" none := by
  refine (repairEmptyByline_idempotent_iff replacesFragments _ _).mpr ?_
  have parts : pieces .asciiOnly "...by  (about)".toList = ["...".toList, []] := by decide
  rw [Option.map_none, Settled, parts]
  simp [Rejoins, Parenthesised]

theorem repaired_again : (repairEmptyByline crates "by by (a) (b)" none = "by (b)" ∧
      repairEmptyByline crates (repairEmptyByline crates "by by (a) (b)" none) none = "") ∧
    (repairEmptyByline crates "by (about)" (some "by (x)") = "by by (x)" ∧
      repairEmptyByline crates (repairEmptyByline crates "by (about)" (some "by (x)")) (some "by (x)") =
        "by by by (x)") := by
  simp only [repairEmptyByline_eq replacesFragments, String.toList_ofList]
  decide

end ShortExcerpts

end Webfang.Domain.ExcerptRepair
