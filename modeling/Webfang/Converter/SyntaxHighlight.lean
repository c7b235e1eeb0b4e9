import Webfang.Library.Backtrack
import Webfang.Library.Segments

/-!
# Highlighted code

`highlight_code_blocks` looks for code blocks with one expression, from three backticks with a word behind
them to the next three. CommonMark delimits a block by lines: the fence opens at the start of a line, and only a line
of as many backticks closes it. `syntect` is a partial function from a language and a code to HTML.
-/
namespace Webfang.Converter

open Library Text Backtrack Segments

def fence : List Char := "```".toList

/-! ### The expression -/

/-- A match is a block with its two groups; the text between the matches is kept by character. -/
inductive Span where
  | plain (c : Char)
  | block (language code : List Char)
  deriving DecidableEq, Repr

def Span.source : Span → List Char
  | .plain c => [c]
  | .block language code => fence ++ language ++ '\n' :: code ++ fence

section Scan

variable (words : WordClass)

/-- The groups of a match of `CODE_BLOCK_RE` at the front. -/
def blockAt (text : List Char) : Option (List Char × List Char) :=
  if fence.isPrefixOf text then
    let behind := text.drop fence.length
    let language := behind.takeWhile words.isWord
    match behind.dropWhile words.isWord with
    | '\n' :: body => (splitFirst fence body).map fun (code, _) => (language, code)
    | _ => none
  else none

/-- `skip` characters of the last match are still to be passed over. -/
def spansFrom (skip : Nat) : List Char → List Span
  | [] => []
  | c :: rest =>
    match skip with
    | skip + 1 => spansFrom skip rest
    | 0 =>
      match blockAt words (c :: rest) with
      | some (language, code) =>
        .block language code :: spansFrom ((Span.block language code).source.length - 1) rest
      | none => .plain c :: spansFrom 0 rest

def spans (markdown : List Char) : List Span := spansFrom words 0 markdown

/-- The closure of `replace_all`. -/
def Span.output (syntect : (language code : List Char) → Option (List Char)) : Span → List Char
  | .plain c => [c]
  | .block language code => (syntect language code).getD (Span.block language code).source

def highlightCodeBlocks (syntect : (language code : List Char) → Option (List Char)) (markdown : List Char) :
    List Char := (spans words markdown).flatMap (Span.output syntect)

variable {words}

/-- Three backticks with word characters and a line end behind them stand here, and `code` reaches to the next
three backticks. -/
structure Opens (words : WordClass) (text language code after : List Char) : Prop where
  whole : text = (Span.block language code).source ++ after
  word : ∀ c ∈ language, words.isWord c = true
  first : splitFirst fence (code ++ fence ++ after) = some (code, after)

theorem Opens.absent {text language code after : List Char} (opens : Opens words text language code after) :
    ¬ fence <:+: code := splitFirst_absent (by decide) opens.first

theorem isWord_newline : words.isWord '\n' = false := words.whitespace '\n' (by decide)

theorem Opens.blockAt {text language code after : List Char} (opens : Opens words text language code after) :
    blockAt words text = some (language, code) := by
  have line : text.drop fence.length = language ++ '\n' :: (code ++ fence ++ after) := by
    rw [opens.whole]
    simp [Span.source, fence]
  have letters : ∀ c ∈ language, words.isWord c = true := opens.word
  rw [Converter.blockAt, if_pos (by rw [opens.whole]; simp [Span.source, List.append_assoc]), line]
  simp only
  rw [List.takeWhile_append_of_pos letters, List.dropWhile_append_of_pos letters,
    List.takeWhile_cons_of_neg (by simp [isWord_newline]),
    List.dropWhile_cons_of_neg (by simp [isWord_newline]), List.append_nil]
  change (splitFirst fence (code ++ fence ++ after)).map _ = _
  rw [opens.first]
  rfl

theorem blockAt_eq_some {text language code : List Char}
    (found : blockAt words text = some (language, code)) : ∃ after, Opens words text language code after := by
  rw [blockAt] at found
  split at found
  next opens =>
    obtain ⟨behind, rfl⟩ := List.isPrefixOf_iff_prefix.mp opens
    rw [List.drop_left] at found
    dsimp only at found
    split at found
    next body line =>
      rw [Option.map_eq_some_iff] at found
      obtain ⟨⟨code', after⟩, split, same⟩ := found
      cases same
      have text := splitFirst_append split
      refine ⟨after, ?_, fun c member => List.mem_takeWhile_imp member, by rwa [text]⟩
      have whole := List.takeWhile_append_dropWhile (p := words.isWord) (l := behind)
      rw [line, ← text] at whole
      conv_lhs => rw [← whole]
      simp [Span.source]
    next => cases found
  next => cases found

theorem spansFrom_source (skip : Nat) (text : List Char) :
    (spansFrom words skip text).flatMap Span.source = text.drop skip := by
  induction text generalizing skip with
  | nil => simp [spansFrom]
  | cons c rest ih =>
    cases skip with
    | succ skip => exact ih skip
    | zero =>
      rw [spansFrom]
      cases found : blockAt words (c :: rest) with
      | none => simp [Span.source, ih]
      | some groups =>
        obtain ⟨language, code⟩ := groups
        obtain ⟨behind, opens⟩ := blockAt_eq_some found
        have whole := opens.whole.symm
        -- the scan steps over the match, and goes on where its source ends
        dsimp only
        rw [List.flatMap_cons, ih, List.drop_zero]
        conv_rhs => rw [← whole]
        refine congrArg _ ?_
        have size : 0 < (Span.block language code).source.length := Nat.zero_lt_succ _
        have shifted := congrArg (List.drop (Span.block language code).source.length) whole
        rw [List.drop_left] at shifted
        rw [shifted]
        obtain ⟨n, length⟩ := Nat.exists_eq_succ_of_ne_zero size.ne'
        rw [length]
        rfl

theorem spans_source (markdown : List Char) : (spans words markdown).flatMap Span.source = markdown :=
  spansFrom_source 0 markdown

theorem spansFrom_drop (skip : Nat) (text : List Char) :
    spansFrom words skip text = spans words (text.drop skip) := by
  induction text generalizing skip with
  | nil => simp [spans, spansFrom]
  | cons c rest ih =>
    cases skip with
    | zero => rfl
    | succ skip => exact ih skip

def Span.groups : Span → Option (List Char × List Char)
  | .plain _ => none
  | .block language code => some (language, code)

theorem spans_cons {text : List Char} {s : Span} {back : List Span} (read : spans words text = s :: back) :
    blockAt words text = s.groups ∧ spans words (back.flatMap Span.source) = back := by
  cases text with
  | nil => cases read
  | cons c rest =>
    rw [spans, spansFrom] at read
    cases found : blockAt words (c :: rest) with
    | none =>
      rw [found] at read
      obtain ⟨rfl, rfl⟩ := List.cons.inj read
      exact ⟨rfl, by rw [spansFrom_source]; rfl⟩
    | some groups =>
      rw [found] at read
      obtain ⟨rfl, rfl⟩ := List.cons.inj read
      exact ⟨rfl, by rw [spansFrom_source, spansFrom_drop]⟩

/-- The scan goes on behind any of its spans as if the text began there. -/
theorem spans_append {text : List Char} {front back : List Span} (read : spans words text = front ++ back) :
    spans words (back.flatMap Span.source) = back := by
  induction front generalizing text with
  | nil =>
    rw [List.nil_append] at read
    rw [← read, spans_source]
  | cons s front ih => exact ih (spans_cons read).2

theorem blockAt_span {text : List Char} {front back : List Span} {s : Span}
    (read : spans words text = front ++ s :: back) :
    blockAt words (s.source ++ back.flatMap Span.source) = s.groups :=
  (spans_cons (spans_append read)).1

/-- Every place of the text lies in one of its spans. -/
theorem exists_span_at {found : List Span} {before rest : List Char} {c : Char}
    (whole : found.flatMap Span.source = before ++ c :: rest) :
    ∃ front s back p, found = front ++ s :: back ∧ before = front.flatMap Span.source ++ p ∧
      p.length < s.source.length ∧ s.source ++ back.flatMap Span.source = p ++ c :: rest := by
  induction found generalizing before with
  | nil => simp at whole
  | cons s found ih =>
    rw [List.flatMap_cons] at whole
    by_cases short : before.length < s.source.length
    · exact ⟨[], s, found, before, rfl, rfl, short, whole⟩
    · obtain ⟨before, rfl⟩ := List.prefix_of_prefix_length_le (List.prefix_append ..)
        ⟨_, whole.symm⟩ (Nat.le_of_not_lt short)
      rw [List.append_assoc, List.append_cancel_left_eq] at whole
      obtain ⟨front, s', back, p, rfl, rfl, inside, there⟩ := ih whole
      exact ⟨s :: front, s', back, p, rfl, by rw [List.flatMap_cons, List.append_assoc], inside, there⟩

end Scan

/-! ### Fenced blocks -/

/-- What may stand behind the backticks of a closing fence. -/
def isBlank (c : Char) : Bool := c == ' ' || c == '\t' || c == '\r' || c == '\n'

/-- The length of the fence that is open behind a line. -/
def fenceStep (opened : Option Nat) (line : List Char) : Option Nat :=
  let n := (line.takeWhile (· == '`')).length
  let rest := line.dropWhile (· == '`')
  match opened with
  | none => if 3 ≤ n ∧ '`' ∉ rest then some n else none
  | some opening => if opening ≤ n ∧ rest.all isBlank then none else some opening

/-- The length of the fence that is open behind some lines. -/
def openFence (lines : List Char) : Option Nat := (segments '\n' lines).foldl fenceStep none

def restOfLine (text : List Char) : List Char := text.takeWhile (· ≠ '\n')

/-- Between the two texts stands a whole block with this code. -/
structure FencedBlock (before after block code : List Char) : Prop where
  lineStart : Terminated '\n' before
  outside : openFence before = none
  /-- The fences, and the lines of the code between them, none of which closes the block. -/
  fences : ∃ n info m, block = List.replicate n '`' ++ info ++ '\n' :: code ++ List.replicate m '`' ∧
    '\n' ∉ info ∧ fenceStep none (List.replicate n '`' ++ info) = some n ∧
    (∀ line ∈ segments '\n' code, fenceStep (some n) line = some n) ∧ n ≤ m
  wholeLines : Terminated '\n' code
  closed : (restOfLine after).all isBlank = true

/-- A match opens at the start of a line outside of the blocks, its code ends with a line, and nothing stands
behind it on its last line. -/
structure WellPlaced (before code after : List Char) : Prop where
  lineStart : Terminated '\n' before
  outside : openFence before = none
  wholeLines : Terminated '\n' code
  closed : (restOfLine after).all isBlank = true

variable {words : WordClass}

theorem ne_of_isWord {c d : Char} (word : words.isWord c = true) (other : words.isWord d = false) :
    c ≠ d := by
  rintro rfl
  rw [word] at other
  cases other

theorem isWord_backtick : words.isWord '`' = false := words.ascii '`' (by decide)

theorem fenceStep_opening {info : List Char} (flat : '`' ∉ info) :
    fenceStep none (List.replicate 3 '`' ++ info) = some 3 := by
  have none : info.takeWhile (· == '`') = [] := by
    rw [List.takeWhile_eq_nil_iff]
    intro some
    simpa using ne_of_mem_of_not_mem (List.getElem_mem some) flat
  have all : info.dropWhile (· == '`') = info := by
    have whole := List.takeWhile_append_dropWhile (p := (· == '`')) (l := info)
    rwa [none, List.nil_append] at whole
  have count : (List.replicate 3 '`' ++ info).takeWhile (· == '`') = List.replicate 3 '`' := by
    rw [List.takeWhile_append_of_pos (by simp), none, List.append_nil]
  have rest : (List.replicate 3 '`' ++ info).dropWhile (· == '`') = info := by
    rw [List.dropWhile_append_of_pos (by simp), all]
  rw [fenceStep, count, rest, List.length_replicate]
  exact if_pos ⟨le_rfl, flat⟩

/-- A line without three backticks closes nothing. -/
theorem fenceStep_of_absent {line : List Char} (absent : ¬ fence <:+: line) :
    fenceStep (some 3) line = some 3 := by
  refine if_neg fun closes => absent ?_
  have ticks : ∀ c ∈ line.takeWhile (· == '`'), c = '`' := fun c member => by
    simpa using List.mem_takeWhile_imp member
  have run := List.eq_replicate_of_mem ticks
  obtain ⟨more, long⟩ := Nat.exists_eq_add_of_le closes.1
  have opens : fence <+: line.takeWhile (· == '`') := by
    rw [run, long, List.replicate_add]
    exact List.prefix_append ..
  exact (opens.trans (List.takeWhile_prefix _)).isInfix

/-- No line end stands among three backticks. -/
theorem fence_begins {rest line more : List Char} (same : fence ++ rest = line ++ '\n' :: more) :
    fence <+: line := by
  rw [show fence = ['`', '`', '`'] from rfl] at same ⊢
  rcases line with _ | ⟨_, _ | ⟨_, _ | ⟨_, line⟩⟩⟩ <;> simp at same
  obtain ⟨rfl, rfl, rfl, -⟩ := same
  exact ⟨line, rfl⟩

section Opening

variable {before text language code after rest p : List Char} (opens : Opens words text language code after)

include opens

theorem Opens.flat : '`' ∉ language ∧ '\n' ∉ language :=
  ⟨fun member => ne_of_isWord (opens.word _ member) isWord_backtick rfl,
    fun member => ne_of_isWord (opens.word _ member) isWord_newline rfl⟩

/-- A line of the code that closed the block would have three backticks, and the match ends at the first. -/
theorem Opens.stays {line : List Char} (member : line ∈ segments '\n' code) :
    fenceStep (some 3) line = some 3 := by
  refine fenceStep_of_absent fun occurs => opens.absent ?_
  rcases mem_segments member with opening | behind
  · exact occurs.trans opening.isInfix
  · exact (occurs.trans (List.suffix_cons ..).isInfix).trans behind

theorem Opens.openFence (placed : WellPlaced before code after) :
    openFence (before ++ (fence ++ language ++ '\n' :: code)) = some 3 := by
  have line : fence ++ language ++ '\n' :: code = (fence ++ language ++ ['\n']) ++ code := by simp
  have flat : '\n' ∉ fence ++ language := by simp [fence, opens.flat.2]
  have lines : ∀ found : List (List Char), (∀ line ∈ found, fenceStep (some 3) line = some 3) →
      found.foldl fenceStep (some 3) = some 3 := fun found stay =>
    List.foldlRecOn (motive := (· = some 3)) found _ rfl fun _ same line member => same ▸ stay line member
  have outside := placed.outside
  rw [Converter.openFence] at outside
  rw [Converter.openFence, segments_append _ placed.lineStart, line, segments_append _ (.inr ⟨_, rfl⟩),
    segments_line flat, List.foldl_append, outside, List.foldl_append, List.foldl_cons, List.foldl_nil,
    show fence ++ language ++ ['\n'] = List.replicate 3 '`' ++ (language ++ ['\n']) by simp [fence],
    fenceStep_opening (by simp [opens.flat.1])]
  exact lines _ fun _ => opens.stays

/-- A match is a whole block exactly when it is well placed. -/
theorem Opens.fencedBlock_iff :
    FencedBlock before after (Span.block language code).source code ↔ WellPlaced before code after := by
  constructor
  · intro block
    exact ⟨block.lineStart, block.outside, block.wholeLines, block.closed⟩
  · intro placed
    exact ⟨placed.lineStart, placed.outside, ⟨3, language, 3, rfl, opens.flat.2,
      fenceStep_opening opens.flat.1, fun _ => opens.stays, le_rfl⟩, placed.wholeLines, placed.closed⟩

/-- Three backticks in or at the end of the code are the closing fence. -/
theorem Opens.closing_code (placed : WellPlaced before code after)
    (whole : code ++ (fence ++ after) = p ++ (fence ++ rest)) (short : p.length < code.length + 3) :
    p = code := by
  rcases List.append_eq_append_iff.mp whole with ⟨more, rfl, behind⟩ | ⟨more, split, behind⟩
  · -- another backtick would stand behind the closing fence
    have closed := placed.closed
    rw [show fence = ['`', '`', '`'] from rfl] at behind
    rcases more with _ | ⟨_, _ | ⟨_, _ | ⟨_, _⟩⟩⟩
    · exact List.append_nil code
    · obtain rfl : after = '`' :: rest := by simpa using (List.cons.inj behind).2
      simp [restOfLine, isBlank] at closed
    · obtain rfl : after = '`' :: '`' :: rest := by simpa using (List.cons.inj (List.cons.inj behind).2).2
      simp [restOfLine, isBlank] at closed
    · simp only [List.length_append, List.length_cons] at short
      omega
  · rcases List.eq_nil_or_concat' more with rfl | ⟨line, c, rfl⟩
    · rw [split, List.append_nil]
    · -- the code ends with a line, so that the backticks stand in front of that
      obtain rfl : c = '\n' := by
        rcases placed.wholeLines with none | ⟨_, ended⟩
        · simp [none] at split
        · simpa using congrArg List.getLast? (split.symm.trans ended)
      rw [List.append_assoc] at behind
      refine absurd ?_ opens.absent
      rw [split]
      exact ((fence_begins behind).isInfix.trans (List.prefix_append ..).isInfix).trans
        (List.suffix_append ..).isInfix

/-- Three backticks behind the start of a well placed block are those of its closing fence. -/
theorem Opens.closing (placed : WellPlaced before code after) (whole : text = p ++ (fence ++ rest))
    (later : p ≠ []) (short : p.length < (Span.block language code).source.length) :
    p = fence ++ language ++ '\n' :: code := by
  have split : (fence ++ language ++ ['\n']) ++ (code ++ (fence ++ after)) = p ++ (fence ++ rest) := by
    rw [← whole, opens.whole]
    simp [Span.source]
  have size : (Span.block language code).source.length =
      (fence ++ language ++ ['\n']).length + (code.length + 3) := by
    simp [Span.source, fence]
    omega
  rcases List.append_eq_append_iff.mp split with ⟨inner, rfl, behind⟩ | ⟨line, front, behind⟩
  · rw [size, List.length_append] at short
    rw [opens.closing_code placed behind (by omega)]
    simp
  · rcases List.eq_nil_or_concat' line with rfl | ⟨line, c, rfl⟩
    · rw [List.append_nil] at front
      have empty := opens.closing_code (p := []) placed behind.symm (by simp)
      rw [← empty, ← front]
    · rw [← List.append_assoc] at front
      obtain ⟨front, same⟩ := List.append_inj' front rfl
      obtain rfl : '\n' = c := by simpa using same
      rw [List.append_assoc] at behind
      obtain ⟨line, rfl⟩ := fence_begins behind
      -- three backticks are all that the line of the opening fence has
      have count := congrArg (List.count '`') front
      cases p with
      | nil => exact absurd rfl later
      | cons c p =>
        have tick : c = '`' := (List.cons.inj front).1.symm
        have none := List.count_eq_zero.mpr opens.flat.1
        simp [fence, tick, none] at count
        omega

end Opening

/-- The result is the text but for the stretches that are highlighted, and these are whole blocks with their
entire code. -/
structure ChangesBlocks (syntect : (language code : List Char) → Option (List Char)) (found : List Span)
    (markdown result : List Char) : Prop where
  text : found.flatMap Span.source = markdown
  outputs : found.flatMap (Span.output syntect) = result
  blocks : ∀ front language code back html, found = front ++ .block language code :: back →
    syntect language code = some html →
    FencedBlock (front.flatMap Span.source) (back.flatMap Span.source) (Span.block language code).source code

/-- Wherever three backticks, word characters and a line end stand, with three more backticks later, a well
placed block of three backticks begins, or such a block ends with these backticks. -/
def FencesWhole (words : WordClass) (markdown : List Char) : Prop :=
  ∀ before text language code after, markdown = before ++ text → Opens words text language code after →
    WellPlaced before code after ∨
      ∃ front text' info inner behind, markdown = front ++ text' ∧ Opens words text' info inner behind ∧
        WellPlaced front inner behind ∧ before = front ++ (fence ++ info ++ '\n' :: inner)

section Fences

variable {markdown : List Char}

/-- A place with three backticks and a line of word characters behind them is a match, or it lies in one. -/
theorem exists_match_at {before text language code after : List Char} (whole : markdown = before ++ text)
    (opens : Opens words text language code after) :
    ∃ front info inner back p, spans words markdown = front ++ .block info inner :: back ∧
      before = front.flatMap Span.source ++ p ∧ p.length < (Span.block info inner).source.length ∧
      (Span.block info inner).source ++ back.flatMap Span.source = p ++ text ∧
      (p = [] → info = language ∧ inner = code) := by
  have cut : (spans words markdown).flatMap Span.source = before ++ '`' :: text.tail := by
    rw [spans_source, whole, opens.whole]
    rfl
  obtain ⟨front, s, back, p, split, rfl, short, there⟩ := exists_span_at cut
  have text' : '`' :: text.tail = text := by
    rw [opens.whole]
    rfl
  rw [text'] at there
  have found := blockAt_span split
  rw [there] at found
  cases s with
  | plain c =>
    obtain rfl : p = [] := List.length_eq_zero_iff.mp (Nat.lt_one_iff.mp short)
    rw [List.nil_append, opens.blockAt] at found
    cases found
  | block info inner =>
    refine ⟨front, info, inner, back, p, split, rfl, short, there, ?_⟩
    rintro rfl
    rw [List.nil_append, opens.blockAt] at found
    cases found
    exact ⟨rfl, rfl⟩

theorem opens_match {front back : List Span} {language code : List Char}
    (split : spans words markdown = front ++ .block language code :: back) :
    Opens words ((Span.block language code).source ++ back.flatMap Span.source) language code
      (back.flatMap Span.source) := by
  obtain ⟨after, opens⟩ := blockAt_eq_some (blockAt_span split)
  rwa [← List.append_cancel_left opens.whole] at opens

theorem source_split {front back : List Span} {s : Span} (split : spans words markdown = front ++ s :: back) :
    markdown = front.flatMap Span.source ++ (s.source ++ back.flatMap Span.source) := by
  have whole : (spans words markdown).flatMap Span.source = markdown := spans_source markdown
  rw [split, List.flatMap_append, List.flatMap_cons] at whole
  exact whole.symm

theorem fencesWhole_of_placed
    (placed : ∀ front language code back, spans words markdown = front ++ .block language code :: back →
      WellPlaced (front.flatMap Span.source) code (back.flatMap Span.source)) :
    FencesWhole words markdown := by
  intro before text language code after whole opens
  obtain ⟨front, info, inner, back, p, split, rfl, short, there, first⟩ := exists_match_at whole opens
  have block := placed front info inner back split
  by_cases start : p = []
  · obtain ⟨rfl, rfl⟩ := first start
    rw [start, List.nil_append, opens.whole, List.append_cancel_left_eq] at there
    rw [start, List.append_nil, ← there]
    exact .inl block
  · -- the backticks stand in a match, and only its closing fence has three of them
    have starts := opens_match split
    have ticks : (Span.block info inner).source ++ back.flatMap Span.source =
        p ++ (fence ++ (language ++ '\n' :: code ++ fence ++ after)) := by
      rw [there, opens.whole]
      simp [Span.source]
    exact .inr ⟨_, _, info, inner, _, source_split split, starts, block,
      by rw [starts.closing block ticks start short]⟩

theorem placed_of_fencesWhole (whole : FencesWhole words markdown) {front back : List Span}
    {language code : List Char} (split : spans words markdown = front ++ .block language code :: back) :
    WellPlaced (front.flatMap Span.source) code (back.flatMap Span.source) := by
  induction size : front.length using Nat.strong_induction_on generalizing front language code back with
  | _ n ih =>
  subst size
  rcases whole _ _ _ _ _ (source_split split) (opens_match split) with
    placed | ⟨before, text, info, inner, behind, whole', opens, placed, closes⟩
  · exact placed
  -- the block that would end here begins in an earlier match
  obtain ⟨front', info', inner', back', p, split', rfl, short, there, first⟩ := exists_match_at whole' opens
  have same : front ++ .block language code :: back = front' ++ .block info' inner' :: back' :=
    split.symm.trans split'
  have earlier : front' ++ [.block info' inner'] <+: front := by
    refine List.prefix_of_prefix_length_le ⟨back', (List.append_cons ..).symm.trans same.symm⟩ (List.prefix_append ..) ?_
    by_contra longer
    have inside : front <+: front' := List.prefix_of_prefix_length_le (List.prefix_append ..)
      ⟨_, same.symm⟩ (by simpa [Nat.lt_succ_iff] using longer)
    have shorter := (inside.flatMap Span.source).length_le
    rw [closes] at shorter
    simp only [fence, List.length_append, List.length_cons, List.length_flatMap] at shorter
    omega
  have block := ih front'.length (by simpa [Nat.succ_le_iff] using earlier.length_le) split' rfl
  by_cases start : p = []
  · obtain ⟨rfl, rfl⟩ := first start
    have shorter := (earlier.flatMap Span.source).length_le
    rw [closes, start, List.flatMap_append, List.flatMap_singleton] at shorter
    simp only [Span.source, List.append_nil, List.length_append, show fence.length = 3 from rfl] at shorter
    omega
  · have ticks : (Span.block info' inner').source ++ back'.flatMap Span.source =
        p ++ (fence ++ (info ++ '\n' :: inner ++ fence ++ behind)) := by
      rw [there, opens.whole]
      simp [Span.source]
    have outside := placed.outside
    rw [(opens_match split').closing block ticks start short, (opens_match split').openFence block] at outside
    cases outside

/-- Whatever `syntect` knows, nothing but whole blocks is highlighted exactly when the fences are whole. -/
theorem highlightCodeBlocks_iff (words : WordClass) (markdown : List Char) :
    (∀ syntect, ChangesBlocks syntect (spans words markdown) markdown
      (highlightCodeBlocks words syntect markdown)) ↔ FencesWhole words markdown := by
  constructor
  · intro changes
    refine fencesWhole_of_placed fun front language code back split => ?_
    exact (opens_match split).fencedBlock_iff.mp
      ((changes fun _ _ => some []).blocks front language code back [] split rfl)
  · intro whole syntect
    refine ⟨spans_source markdown, rfl, fun front language code back _ split _ => ?_⟩
    exact (opens_match split).fencedBlock_iff.mpr (placed_of_fencesWhole whole split)

end Fences

/-! A fence of four backticks around an example of one of three, and a sentence with backticks. -/

namespace NestedFences

/-- `highlighted_html_for_string` of no code. -/
def emptyHtml : List Char := "<pre style=\"background-color:#2b303b;\">\n</pre>\n".toList

/-- Only code that is empty is highlighted here. -/
def syntect (language code : List Char) : Option (List Char) :=
  if language = "md".toList ∧ code = [] then some emptyHtml else none

def longer : List Char := "````md\n```rust\n```\n````".toList

def sentence : List Char := "A ```md\n``` b".toList

theorem longer_spans : spans .asciiOnly longer = [.plain '`', .block "md".toList []] ++
      ("rust\n".toList.map Span.plain ++ [.block [] [], .plain '`']) := by
  decide

theorem sentence_spans : spans .asciiOnly sentence =
    "A ".toList.map Span.plain ++ .block "md".toList [] :: " b".toList.map Span.plain := by
  decide

/-- A part of the longer block is highlighted, and a part of a line that is in no block. -/
theorem part_highlighted :
    (highlightCodeBlocks .asciiOnly syntect longer = '`' :: emptyHtml ++ "rust\n```\n````".toList ∧
      ¬ FencedBlock "`".toList "rust\n```\n````".toList "```md\n```".toList []) ∧
    highlightCodeBlocks .asciiOnly syntect sentence = "A ".toList ++ emptyHtml ++ " b".toList ∧
      ¬ FencedBlock "A ".toList " b".toList "```md\n```".toList [] := by
  refine ⟨⟨?_, fun block => ?_⟩, ?_, fun block => ?_⟩
  · rw [highlightCodeBlocks, longer_spans]
    decide
  · rcases block.lineStart with none | ⟨front, ended⟩
    · cases none
    · exact absurd (congrArg List.getLast? ended) (by rw [List.getLast?_concat]; decide)
  · rw [highlightCodeBlocks, sentence_spans]
    decide
  · rcases block.lineStart with none | ⟨front, ended⟩
    · cases none
    · exact absurd (congrArg List.getLast? ended) (by rw [List.getLast?_concat]; decide)

end NestedFences

end Webfang.Converter
