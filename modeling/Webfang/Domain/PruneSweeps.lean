import Webfang.Domain.DomPruner

/-!
# Sweeps over pieces

Each `replace_all` of `prune_dom` is a sweep over the pieces of a document: a stretch starts at an opening
tag whose inside the front of the pattern matches, and takes whole tags and texts.
-/
namespace Webfang.Domain.DomPruner

open Library Text Backtrack Sweep

/-- The patterns match at the front of what stands in an opening tag. -/
def opensWith (patterns : List Pattern) (piece : Piece) : Bool :=
  match piece.token with
  | .opening inner => !((seqs patterns).rests inner).isEmpty
  | .closing _ => false
  | .text _ => false

def closesWith (pattern : Pattern) (piece : Piece) : Bool :=
  match piece.token with
  | .closing name => decide ([] ∈ pattern.rests name)
  | .opening _ => false
  | .text _ => false

def isBlank (piece : Piece) : Bool :=
  match piece.token with
  | .text chars => chars.all isWhitespace
  | .opening _ => false
  | .closing _ => false

theorem opensWith_opening {patterns : List Pattern} {piece : Piece} {inner : List Char}
    (token : piece.token = .opening inner) :
    opensWith patterns piece = !((seqs patterns).rests inner).isEmpty := by
  rw [opensWith, token]

theorem closesWith_closing {pattern : Pattern} {piece : Piece} {name : List Char}
    (token : piece.token = .closing name) : closesWith pattern piece = decide ([] ∈ pattern.rests name) := by
  rw [closesWith, token]

theorem isBlank_text {piece : Piece} {chars : List Char} (token : piece.token = .text chars) :
    isBlank piece = chars.all isWhitespace := by
  rw [isBlank, token]

/-- What stands behind a closing tag in front of which all text is blank. -/
def behindBlank (ends : Piece → Bool) : List Piece → Option (List Piece)
  | [] => none
  | piece :: row => if isBlank piece then behindBlank ends row else if ends piece then some row else none

/-- What is skipped in front of the closing tag is blank. -/
theorem behindBlank_eq_some {ends : Piece → Bool} {row rest : List Piece}
    (found : behindBlank ends row = some rest) :
    ∃ middle c, row = middle ++ c :: rest ∧ ends c = true ∧ ∀ piece ∈ middle, isBlank piece = true := by
  induction row with
  | nil => cases found
  | cons piece row ih =>
    rw [behindBlank] at found
    split at found
    next blank =>
      obtain ⟨middle, c, rfl, ended, before⟩ := ih found
      exact ⟨piece :: middle, c, rfl, ended, List.forall_mem_cons.mpr ⟨blank, before⟩⟩
    next =>
      split at found
      next ended =>
        cases found
        exact ⟨[], piece, rfl, ended, by simp⟩
      next => cases found

theorem behindBlank_suffix {ends : Piece → Bool} {row rest : List Piece}
    (found : behindBlank ends row = some rest) : rest <:+ row := by
  obtain ⟨middle, c, rfl, -⟩ := behindBlank_eq_some found
  exact ⟨middle ++ [c], by simp⟩

/-- An opening tag with some patterns at the front of its inside, and what has to stand behind it. -/
def tagged (patterns others : List Pattern) : Pattern :=
  seqs (.one (· == '<') :: (patterns ++ ([.greedy (· != '>'), .one (· == '>')] ++ others)))

def SoundRow (row : List Piece) : Prop := ∀ piece ∈ row, piece.token.Sound

theorem sound_pieces (document : List Html) : SoundRow (pieces document) := by
  intro piece member
  have entry : (piece.token, piece.hidden) ∈ tokensAll false document := by
    rw [← map_pieces document]
    exact List.mem_map_of_mem member
  exact sound_tokensAll false document _ entry

theorem SoundRow.sublist {row rest : List Piece} (sound : SoundRow row) (sub : rest.Sublist row) :
    SoundRow rest := fun piece member => sound piece (sub.subset member)

theorem render_cons (piece : Piece) (row : List Piece) :
    render (piece :: row) = piece.token.write ++ render row := List.flatMap_cons

/-! ### Matches over tags and texts -/

section Matches

variable {patterns others : List Pattern} {chars inner name : List Char} {row : List Piece}

theorem AngleFree.skips (free : AngleFree chars) : ∀ c ∈ chars, (c == '<') = false := by
  intro c member
  simp only [beq_eq_false_iff_ne]
  rintro rfl
  exact free.1 member

theorem AngleFree.runs (free : AngleFree chars) : ∀ c ∈ chars, c ≠ '>' := by
  rintro c member rfl
  exact free.2 member

theorem head?_opening (avoids : (seqs patterns).avoids '>' = true) (free : AngleFree inner)
    (text : List Char) : ((tagged patterns others).rests ('<' :: (inner ++ '>' :: text))).head? =
      if (seqs patterns).rests inner = [] then none else ((seqs others).rests text).head? := by
  rw [tagged, rests_taken rfl]
  exact head?_until avoids free.runs text

theorem head?_slash (refuses : (seqs patterns).refuses '/' = true) (text : List Char) :
    ((tagged patterns others).rests ('<' :: '/' :: text)).head? = none := by
  rw [tagged, rests_taken rfl, rests_seqs_append, rests_refuses refuses, List.flatMap_nil, List.head?_nil]

/-- A closing tag stands before the rest of a text that its name lets through. -/
theorem head?_close {pattern : Pattern} (avoids : pattern.avoids '>' = true) (free : AngleFree name)
    (text : List Char) : ((seqs [.one (· == '<'), .one (· == '/'), pattern, .one (· == '>')]).rests
      ('<' :: '/' :: (name ++ '>' :: text))).head? = if [] ∈ pattern.rests name then some text else none := by
  rw [rests_taken rfl, rests_taken rfl]
  exact head?_upTo avoids free.runs text

theorem head?_close_opening {pattern : Pattern} (sound : (Token.opening inner).Sound) (text : List Char) :
    ((seqs [.one (· == '<'), .one (· == '/'), pattern, .one (· == '>')]).rests
      ('<' :: (inner ++ text))).head? = none := by
  obtain ⟨-, c, rest, rfl, other⟩ := sound
  have stays : (c == '/') = false := beq_false_of_ne other
  rw [rests_taken rfl, List.cons_append, rests_leading (p := (· == '/')) stays, List.head?_nil]

/-! ### Removals -/

theorem removeAll_chars (free : AngleFree chars) (text : List Char) :
    removeAll (tagged patterns others) (chars ++ text) = chars ++ removeAll (tagged patterns others) text :=
  removeAll_skip free.skips text

theorem removeAll_closing (refuses : (seqs patterns).refuses '/' = true) (free : AngleFree name)
    (text : List Char) :
    removeAll (tagged patterns others) ((Token.closing name).write ++ text) =
      (Token.closing name).write ++ removeAll (tagged patterns others) text := by
  have past : ∀ c ∈ '/' :: (name ++ ['>']), (c == '<') = false := by
    simp only [List.forall_mem_cons, List.forall_mem_append]
    exact ⟨by decide, free.skips, by decide, by simp⟩
  have none : ((tagged patterns others).rests ('<' :: '/' :: (name ++ ['>'] ++ text))).head? = none :=
    head?_slash refuses _
  have later : removeAll (tagged patterns others) ('/' :: (name ++ ['>']) ++ text) =
      '/' :: (name ++ ['>']) ++ removeAll (tagged patterns others) text := removeAll_skip past text
  exact (removeAll_none none).trans (congrArg ('<' :: ·) later)

theorem removeAll_opening (avoids : (seqs patterns).avoids '>' = true) (free : AngleFree inner)
    (text : List Char) :
    removeAll (tagged patterns others) ((Token.opening inner).write ++ text) =
      match (if (seqs patterns).rests inner = [] then none else ((seqs others).rests text).head?) with
      | some rest => removeAll (tagged patterns others) rest
      | none => (Token.opening inner).write ++ removeAll (tagged patterns others) text := by
  have written : (Token.opening inner).write ++ text = '<' :: (inner ++ '>' :: text) := by simp [Token.write]
  have head : ((tagged patterns others).rests ('<' :: (inner ++ '>' :: text))).head? = _ :=
    head?_opening avoids free text
  rw [written]
  split
  next rest found =>
    rw [found] at head
    exact removeAll_match head
  next none =>
    rw [none] at head
    have past : ∀ c ∈ inner ++ ['>'], (c == '<') = false := by
      simp only [List.forall_mem_append]
      exact ⟨free.skips, by simp⟩
    have later : removeAll (tagged patterns others) (inner ++ ['>'] ++ text) =
        inner ++ ['>'] ++ removeAll (tagged patterns others) text := removeAll_skip past text
    rw [List.append_assoc] at later
    exact (removeAll_none head).trans (congrArg ('<' :: ·) later)

/-- A `replace_all` over the markup of some pieces is a sweep over the pieces. -/
theorem removeAll_render {finish : List Piece → Option (List Piece)}
    (avoids : (seqs patterns).avoids '>' = true) (refuses : (seqs patterns).refuses '/' = true)
    (finishes : ∀ row, SoundRow row → ((seqs others).rests (render row)).head? = (finish row).map render)
    (shorter : ∀ {row rest}, finish row = some rest → rest <:+ row) (sound : SoundRow row) :
    removeAll (tagged patterns others) (render row) =
      render (sweep (opensWith patterns) finish row) := by
  induction row using sweep.induct (opensWith patterns) finish with
  | case1 =>
    rw [sweep]
    simp [render, removeAll]
  | case2 piece row start rest found short ih =>
    rw [sweep_some start found short, ← ih (sound.sublist ((shorter found).sublist.cons piece))]
    obtain ⟨first, behind⟩ := List.forall_mem_cons.mp sound
    have head := finishes row behind
    rw [found] at head
    cases token : piece.token with
    | opening inner =>
      rw [token] at first
      have front : (seqs patterns).rests inner ≠ [] := by simpa [opensWith_opening token] using start
      rw [render_cons, token, removeAll_opening avoids first.1, if_neg front, head]
      rfl
    | closing name => simp [token, opensWith] at start
    | text chars => simp [token, opensWith] at start
  | case3 piece row start rest found long => exact absurd (shorter found).length_le long
  | case4 piece row start none ih =>
    obtain ⟨first, behind⟩ := List.forall_mem_cons.mp sound
    have head := finishes row behind
    rw [none] at head
    rw [sweep_none none, render_cons, render_cons, ← ih behind]
    cases token : piece.token with
    | opening inner =>
      rw [token] at first
      rw [removeAll_opening avoids first.1, head]
      simp
    | closing name => simp [token, opensWith] at start
    | text chars => simp [token, opensWith] at start
  | case5 piece row stays ih =>
    obtain ⟨first, behind⟩ := List.forall_mem_cons.mp sound
    rw [sweep_stays (Bool.eq_false_iff.mpr stays), render_cons, render_cons, ← ih behind]
    cases token : piece.token with
    | opening inner =>
      rw [token] at first
      have front : (seqs patterns).rests inner = [] := by simpa [opensWith_opening token] using stays
      rw [removeAll_opening avoids first.1, if_pos front]
    | closing name =>
      rw [token] at first
      exact removeAll_closing refuses first _
    | text chars =>
      rw [token] at first
      exact removeAll_chars first _

/-- The first closing tag of a listed kind is what a lazy pattern finds. -/
theorem search_close {pattern : Pattern} (avoids : pattern.avoids '>' = true) (sound : SoundRow row) :
    search (seqs [.one (· == '<'), .one (· == '/'), pattern, .one (· == '>')]) (render row) =
      (behind (closesWith pattern) row).map render := by
  induction row with
  | nil => rfl
  | cons piece row ih =>
    obtain ⟨first, behind⟩ := List.forall_mem_cons.mp sound
    rw [render_cons, Sweep.behind]
    cases token : piece.token with
    | opening inner =>
      rw [token] at first
      have past : ∀ c ∈ inner ++ ['>'], (c == '<') = false := by
        simp only [List.forall_mem_append]
        exact ⟨first.1.skips, by simp⟩
      have none := @head?_close_opening _ pattern first (['>'] ++ render row)
      rw [← List.append_assoc] at none
      change search _ ('<' :: (inner ++ ['>'] ++ render row)) = _
      rw [search, none, Option.none_or, search_skip past, ih behind]
      simp [closesWith, token]
    | closing name =>
      rw [token] at first
      have past : ∀ c ∈ '/' :: (name ++ ['>']), (c == '<') = false := by
        simp only [List.forall_mem_cons, List.forall_mem_append]
        exact ⟨by decide, first.skips, by decide, by simp⟩
      have head := head?_close avoids first (render row)
      have written : '/' :: (name ++ '>' :: render row) = '/' :: (name ++ ['>']) ++ render row := by simp
      change search _ ('<' :: ('/' :: (name ++ ['>']) ++ render row)) = _
      rw [search, ← written, head, written, search_skip past, ih behind]
      by_cases taken : [] ∈ pattern.rests name <;> simp [closesWith_closing token, taken]
    | text chars =>
      rw [token] at first
      rw [Token.write, search_skip first.skips, ih behind]
      simp [closesWith, token]

/-- A closing tag with only blank text in front. -/
theorem rests_behindBlank {pattern : Pattern} (avoids : pattern.avoids '>' = true) (sound : SoundRow row) :
    ((seqs [.greedy isWhitespace, .one (· == '<'), .one (· == '/'), pattern, .one (· == '>')]).rests
      (render row)).head? = (behindBlank (closesWith pattern) row).map render := by
  have bracket : ∀ c, isWhitespace c = true → (c == '<') = false := by
    intro c blank
    rw [beq_eq_false_iff_ne]
    rintro rfl
    exact absurd blank (by decide)
  rw [rests_greedy bracket]
  induction row with
  | nil => rfl
  | cons piece row ih =>
    obtain ⟨first, behind⟩ := List.forall_mem_cons.mp sound
    rw [render_cons, behindBlank]
    cases token : piece.token with
    | opening inner =>
      rw [token] at first
      have stays : ((Token.opening inner).write ++ render row).dropWhile isWhitespace =
          '<' :: (inner ++ (['>'] ++ render row)) := by simp [Token.write, isWhitespace]
      rw [stays, head?_close_opening first]
      simp [isBlank, closesWith, token]
    | closing name =>
      rw [token] at first
      have stays : ((Token.closing name).write ++ render row).dropWhile isWhitespace =
          '<' :: '/' :: (name ++ '>' :: render row) := by simp [Token.write, isWhitespace]
      rw [stays, head?_close avoids first]
      have full : isBlank piece = false := by simp [isBlank, token]
      rw [full, closesWith_closing token]
      by_cases taken : [] ∈ pattern.rests name <;> simp [taken]
    | text chars =>
      rw [token] at first
      by_cases blank : ∀ c ∈ chars, isWhitespace c = true
      · have dropped : ((Token.text chars).write ++ render row).dropWhile isWhitespace =
            (render row).dropWhile isWhitespace := List.dropWhile_append_of_pos blank
        have empty : isBlank piece = true := by simpa [isBlank_text token] using blank
        rw [dropped, if_pos empty]
        exact ih behind
      · -- a text that is not blank stands in front of all tags
        have full : isBlank piece = false := by simpa [isBlank_text token] using blank
        have never : closesWith pattern piece = false := by simp [closesWith, token]
        obtain ⟨c, rest, left⟩ : ∃ c rest, chars.dropWhile isWhitespace = c :: rest :=
          List.exists_cons_of_ne_nil (by simpa using blank)
        have within : c ∈ chars := (List.dropWhile_sublist isWhitespace).subset (left ▸ List.mem_cons_self)
        have stays : ((Token.text chars).write ++ render row).dropWhile isWhitespace =
            c :: (rest ++ render row) := by
          rw [Token.write, List.dropWhile_append, left]
          rfl
        rw [stays, rests_leading (p := (· == '<')) (first.skips c within), full, never]
        rfl

end Matches

end Webfang.Domain.DomPruner
