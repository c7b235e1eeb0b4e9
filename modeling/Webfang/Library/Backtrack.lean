import Webfang.Library.Text

/-!
# Backtracking patterns

Patterns over text, and what is left of a text behind their matches, in the order in which a backtracking
matcher prefers them: the first alternative before the second, a greedy repetition from its longest run, a
lazy one from its shortest. Matches are removed from left to right.
-/
namespace Library.Backtrack

inductive Pattern where
  | here
  | one (p : Char → Bool)
  | greedy (p : Char → Bool)
  | lazily (p : Char → Bool)
  | seq (first second : Pattern)
  | alt (first second : Pattern)

def greedyRests (p : Char → Bool) : List Char → List (List Char)
  | [] => [[]]
  | c :: text => if p c then greedyRests p text ++ [c :: text] else [c :: text]

def lazyRests (p : Char → Bool) : List Char → List (List Char)
  | [] => [[]]
  | c :: text => (c :: text) :: if p c then lazyRests p text else []

/-- What is left behind the matches at the front of a text, the preferred one first. -/
def Pattern.rests : Pattern → List Char → List (List Char)
  | .here, text => [text]
  | .one _, [] => []
  | .one p, c :: text => if p c then [text] else []
  | .greedy p, text => greedyRests p text
  | .lazily p, text => lazyRests p text
  | .seq first second, text => (first.rests text).flatMap second.rests
  | .alt first second, text => first.rests text ++ second.rests text

/-- The characters that `\w` takes. Unicode adds characters to those of ASCII, none of them white space. -/
structure WordClass where
  isWord : Char → Bool
  ascii : ∀ c, c.toNat < 128 → isWord c = (c.isAlphanum || c == '_')
  whitespace : ∀ c, Text.isWhitespace c = true → isWord c = false

/-- No character beyond ASCII is taken. -/
def WordClass.asciiOnly : WordClass where
  isWord c := c.isAlphanum || c == '_'
  ascii _ _ := rfl
  whitespace c white := by
    rw [← Bool.not_eq_true]
    unfold Char.isAlphanum Char.isAlpha Char.isUpper Char.isLower Char.isDigit
    simp only [Bool.or_eq_true, Bool.and_eq_true, decide_eq_true_eq, beq_iff_eq, ge_iff_le, UInt32.le_iff_toNat_le,
      Char.ext_iff, UInt32.toNat_inj.symm, Text.isWhitespace, Char.toNat] at white ⊢
    simp only [Char.reduceVal, UInt32.reduceToNat]
    omega

/-- One pattern behind the other. -/
def seqs (patterns : List Pattern) : Pattern := patterns.foldr .seq .here

/-- The first of some patterns. -/
def alts (patterns : List Pattern) : Pattern := patterns.foldr .alt (.one fun _ => false)

/-- A lower-case letter or another character without regard to case, with the two letters outside of ASCII
that fold to one. -/
def caseless (c d : Char) : Bool := d.toLower == c || (c == 's' && d == '\u017F') ||
    (c == 'k' && d == '\u212A')

def literal (word : String) : Pattern := seqs (word.toList.map fun c => .one (caseless c))

/-- The text without the matches, each of which is looked for behind the one before. -/
def removeAll (pattern : Pattern) : List Char → List Char
  | [] => []
  | c :: text =>
    match (pattern.rests (c :: text)).head? with
    | some rest =>
      if rest.length < (c :: text).length then removeAll pattern rest else c :: removeAll pattern text
    | none => c :: removeAll pattern text
  termination_by text => text.length
  decreasing_by
    · assumption
    · exact Nat.lt_succ_self text.length
    · exact Nat.lt_succ_self text.length

/-- What is left behind the first match of a text. -/
def search (pattern : Pattern) : List Char → Option (List Char)
  | [] => (pattern.rests []).head?
  | c :: text => (pattern.rests (c :: text)).head?.or (search pattern text)

/-- `^pattern$`: the pattern takes the whole text. -/
def takesAll (pattern : Pattern) (text : List Char) : Bool := (pattern.rests text).any List.isEmpty

section Rests

variable {pattern first second : Pattern} {p : Char → Bool} {text front back : List Char} {c : Char}

theorem rests_seqs_cons (patterns : List Pattern) (text : List Char) :
    (seqs (first :: patterns)).rests text = (first.rests text).flatMap (seqs patterns).rests := rfl

theorem rests_seqs_append (patterns others : List Pattern) (text : List Char) :
    (seqs (patterns ++ others)).rests text = ((seqs patterns).rests text).flatMap (seqs others).rests := by
  induction patterns generalizing text with
  | nil => simp [seqs, Pattern.rests]
  | cons first patterns ih =>
    rw [List.cons_append, rests_seqs_cons, rests_seqs_cons, List.flatMap_assoc]
    exact List.flatMap_congr fun rest _ => ih rest

/-- No part of the pattern takes the character. -/
def Pattern.avoids (stop : Char) : Pattern → Bool
  | .here => true
  | .one p => !p stop
  | .greedy p => !p stop
  | .lazily p => !p stop
  | .seq first second => first.avoids stop && second.avoids stop
  | .alt first second => first.avoids stop && second.avoids stop

theorem rests_append {stop : Char} (avoids : pattern.avoids stop = true) (text back : List Char) :
    pattern.rests (text ++ stop :: back) = (pattern.rests text).map (· ++ stop :: back) := by
  induction pattern generalizing text with
  | here => rfl
  | one p =>
    have stays : p stop = false := by simpa [Pattern.avoids] using avoids
    cases text with
    | nil => simp [Pattern.rests, stays]
    | cons c text => by_cases taken : p c = true <;> simp [Pattern.rests, taken]
  | greedy p =>
    have stays : p stop = false := by simpa [Pattern.avoids] using avoids
    simp only [Pattern.rests]
    induction text with
    | nil => simp [greedyRests, stays]
    | cons c text ih => by_cases taken : p c = true <;> simp [greedyRests, taken, ih]
  | lazily p =>
    have stays : p stop = false := by simpa [Pattern.avoids] using avoids
    simp only [Pattern.rests]
    induction text with
    | nil => simp [lazyRests, stays]
    | cons c text ih => by_cases taken : p c = true <;> simp [lazyRests, taken, ih]
  | seq first second ihFirst ihSecond =>
    simp only [Pattern.avoids, Bool.and_eq_true] at avoids
    rw [Pattern.rests, ihFirst avoids.1, List.flatMap_map, Pattern.rests, List.map_flatMap]
    exact List.flatMap_congr fun rest _ => ihSecond avoids.2 rest
  | alt first second ihFirst ihSecond =>
    simp only [Pattern.avoids, Bool.and_eq_true] at avoids
    rw [Pattern.rests, ihFirst avoids.1, ihSecond avoids.2, Pattern.rests, List.map_append]

/-- No match of the pattern begins with the character. -/
def Pattern.refuses (c : Char) : Pattern → Bool
  | .one p => !p c
  | .seq first _ => first.refuses c
  | .alt first second => first.refuses c && second.refuses c
  | .here => false
  | .greedy _ => false
  | .lazily _ => false

theorem rests_refuses (refuses : pattern.refuses c = true) (text : List Char) :
    pattern.rests (c :: text) = [] := by
  induction pattern with
  | one p =>
    have stays : p c = false := by simpa [Pattern.refuses] using refuses
    simp [Pattern.rests, stays]
  | seq first second ih _ => rw [Pattern.rests, ih refuses, List.flatMap_nil]
  | alt first second ihFirst ihSecond =>
    simp only [Pattern.refuses, Bool.and_eq_true] at refuses
    rw [Pattern.rests, ihFirst refuses.1, ihSecond refuses.2, List.append_nil]
  | here => cases refuses
  | greedy p => cases refuses
  | lazily p => cases refuses

theorem mem_rests_alts {patterns : List Pattern} (member : pattern ∈ patterns) {rest : List Char}
    (left : rest ∈ pattern.rests text) : rest ∈ (alts patterns).rests text := by
  induction patterns with
  | nil => cases member
  | cons other patterns ih =>
    rw [alts, List.foldr_cons]
    rcases List.mem_cons.mp member with rfl | later
    · exact List.mem_append_left _ left
    · exact List.mem_append_right _ (ih later)

/-- A word is taken in any case. -/
theorem nil_mem_rests_literal {word : String} (same : text.map Char.toLower = word.toList) :
    [] ∈ (literal word).rests text := by
  rw [literal]
  generalize word.toList = letters at same
  subst same
  induction text with
  | nil => exact List.mem_singleton_self []
  | cons c text ih =>
    have taken : (Pattern.one (caseless c.toLower)).rests (c :: text) = [text] := if_pos (by simp [caseless])
    rw [List.map_cons, List.map_cons, rests_seqs_cons, taken]
    simpa using ih

theorem suffix_of_mem_rests {rest : List Char} (left : rest ∈ pattern.rests text) : rest <:+ text := by
  induction pattern generalizing text rest with
  | here => exact (List.mem_singleton.mp left) ▸ List.suffix_refl text
  | one p =>
    cases text with
    | nil => cases left
    | cons c text =>
      simp only [Pattern.rests] at left
      split at left
      · exact (List.mem_singleton.mp left) ▸ List.suffix_cons c text
      · cases left
  | greedy p =>
    simp only [Pattern.rests] at left
    induction text with
    | nil => exact (List.mem_singleton.mp left) ▸ List.suffix_refl []
    | cons c text ih =>
      simp only [greedyRests] at left
      split at left
      · rcases List.mem_append.mp left with behind | all
        · exact (ih behind).trans (List.suffix_cons c text)
        · exact (List.mem_singleton.mp all) ▸ List.suffix_refl _
      · exact (List.mem_singleton.mp left) ▸ List.suffix_refl _
  | lazily p =>
    simp only [Pattern.rests] at left
    induction text with
    | nil => exact (List.mem_singleton.mp left) ▸ List.suffix_refl []
    | cons c text ih =>
      rcases List.mem_cons.mp left with rfl | behind
      · exact List.suffix_refl _
      · split at behind
        · exact (ih behind).trans (List.suffix_cons c text)
        · cases behind
  | seq first second ihFirst ihSecond =>
    obtain ⟨middle, inner, outer⟩ := List.mem_flatMap.mp left
    exact (ihSecond outer).trans (ihFirst inner)
  | alt first second ihFirst ihSecond =>
    rcases List.mem_append.mp left with inner | inner
    · exact ihFirst inner
    · exact ihSecond inner

/-- A lazy repetition of any character is a search. -/
theorem head?_lazily (any : ∀ c, p c = true) (patterns : List Pattern) (text : List Char) :
    ((seqs (.lazily p :: patterns)).rests text).head? = search (seqs patterns) text := by
  rw [rests_seqs_cons, Pattern.rests]
  induction text with
  | nil => simp [lazyRests, search]
  | cons c text ih => rw [lazyRests, if_pos (any c), List.flatMap_cons, List.head?_append, ih, search]

/-- A greedy repetition that the next part does not take up takes all it can. -/
theorem rests_greedy {q : Char → Bool} (apart : ∀ c, p c = true → q c = false) (patterns : List Pattern)
    (text : List Char) : (seqs (.greedy p :: .one q :: patterns)).rests text =
      (seqs (.one q :: patterns)).rests (text.dropWhile p) := by
  rw [rests_seqs_cons, Pattern.rests]
  induction text with
  | nil => simp [greedyRests]
  | cons c text ih =>
    by_cases taken : p c = true
    · have stays : (seqs (.one q :: patterns)).rests (c :: text) = [] := by
        simp [rests_seqs_cons, Pattern.rests, apart c taken]
      rw [greedyRests, if_pos taken, List.flatMap_append, ih, List.flatMap_singleton, stays, List.append_nil,
        List.dropWhile_cons_of_pos taken]
    · rw [greedyRests, if_neg taken, List.flatMap_singleton, List.dropWhile_cons_of_neg taken]

/-- Up to the character that ends a run there is one way. -/
theorem rests_until {stop : Char} (run : ∀ c ∈ front, c ≠ stop) (back : List Char) :
    (seqs [.greedy (· != stop), .one (· == stop)]).rests (front ++ stop :: back) = [back] := by
  rw [rests_greedy (by simp)]
  have reached : (front ++ stop :: back).dropWhile (· != stop) = stop :: back := by
    rw [List.dropWhile_append_of_pos (by simpa using run), List.dropWhile_cons_of_neg (by simp)]
  rw [reached]
  simp [seqs, Pattern.rests]

theorem takesAll_iff : takesAll pattern text = true ↔ [] ∈ pattern.rests text := by
  simp [takesAll]

theorem mem_rests_greedy {rest : List Char} :
    rest ∈ (Pattern.greedy p).rests text ↔ ∃ run, text = run ++ rest ∧ ∀ c ∈ run, p c = true := by
  rw [Pattern.rests]
  induction text with
  | nil =>
    rw [greedyRests, List.mem_singleton]
    constructor
    · rintro rfl
      exact ⟨[], rfl, by simp⟩
    · rintro ⟨run, whole, -⟩
      exact (List.append_eq_nil_iff.mp whole.symm).2
  | cons c text ih =>
    have stay : c :: text = [] ++ c :: text ∧ ∀ d ∈ ([] : List Char), p d = true := ⟨rfl, by simp⟩
    by_cases taken : p c = true
    · rw [greedyRests, if_pos taken, List.mem_append, ih, List.mem_singleton]
      constructor
      · rintro (⟨run, rfl, all⟩ | rfl)
        · exact ⟨c :: run, rfl, List.forall_mem_cons.mpr ⟨taken, all⟩⟩
        · exact ⟨[], stay⟩
      · rintro ⟨run, whole, all⟩
        cases run with
        | nil => exact .inr whole.symm
        | cons d run => exact .inl ⟨run, (List.cons.inj whole).2, fun e member => all e (.tail _ member)⟩
    · rw [greedyRests, if_neg taken, List.mem_singleton]
      constructor
      · rintro rfl
        exact ⟨[], stay⟩
      · rintro ⟨run, whole, all⟩
        cases run with
        | nil => exact whole.symm
        | cons d run => exact absurd ((List.cons.inj whole).1 ▸ all d List.mem_cons_self) taken

theorem head?_flatMap_const (rests : List (List Char)) (others : List (List Char)) :
    (rests.flatMap fun _ => others).head? = if rests = [] then none else others.head? := by
  induction rests with
  | nil => rfl
  | cons rest rests ih =>
    rw [List.flatMap_cons, List.head?_append, ih, if_neg (List.cons_ne_nil rest rests)]
    split
    · exact Option.or_none
    · exact Option.or_self

/-- Parts that avoid the end of a run, the rest of the run, and what is behind it. -/
theorem head?_until {stop : Char} {patterns others : List Pattern}
    (avoids : (seqs patterns).avoids stop = true) (run : ∀ c ∈ front, c ≠ stop) (back : List Char) :
    ((seqs (patterns ++ ([.greedy (· != stop), .one (· == stop)] ++ others))).rests
      (front ++ stop :: back)).head? =
      if (seqs patterns).rests front = [] then none else ((seqs others).rests back).head? := by
  rw [rests_seqs_append, rests_append avoids, List.flatMap_map, ← head?_flatMap_const]
  congr 1
  apply List.flatMap_congr
  intro rest left
  have within : ∀ c ∈ rest, c ≠ stop := fun c member => run c ((suffix_of_mem_rests left).subset member)
  rw [rests_seqs_append, rests_until within, List.flatMap_singleton]

/-- A part that avoids the character behind it has to take all in front of it. -/
theorem head?_upTo {stop : Char} (avoids : pattern.avoids stop = true) (run : ∀ c ∈ front, c ≠ stop)
    (back : List Char) : ((seqs [pattern, .one (· == stop)]).rests (front ++ stop :: back)).head? =
      if [] ∈ pattern.rests front then some back else none := by
  rw [rests_seqs_cons, rests_append avoids, List.flatMap_map]
  have within : ∀ rest ∈ pattern.rests front, ∀ c ∈ rest, c ≠ stop :=
    fun rest left c member => run c ((suffix_of_mem_rests left).subset member)
  generalize pattern.rests front = lists at within ⊢
  induction lists with
  | nil => rfl
  | cons rest rests ih =>
    have others := ih fun r member => within r (List.mem_cons_of_mem rest member)
    rw [List.flatMap_cons, List.head?_append, others]
    cases rest with
    | nil => simp [seqs, Pattern.rests]
    | cons c rest =>
      have apart : (c == stop) = false := by simpa using within _ List.mem_cons_self c List.mem_cons_self
      simp [seqs, Pattern.rests, apart]

end Rests

/-! ### Patterns with a first character -/

section Leading

variable {p : Char → Bool} {patterns : List Pattern} {c : Char} {text front : List Char}

theorem rests_taken (taken : p c = true) :
    (seqs (.one p :: patterns)).rests (c :: text) = (seqs patterns).rests text := by
  simp [rests_seqs_cons, Pattern.rests, taken]

theorem rests_leading (other : p c = false) : (seqs (.one p :: patterns)).rests (c :: text) = [] := by
  simp [rests_seqs_cons, Pattern.rests, other]

theorem length_lt_of_leading {rest : List Char}
    (left : rest ∈ (seqs (.one p :: patterns)).rests (c :: text)) :
    rest.length < (c :: text).length := by
  rw [rests_seqs_cons] at left
  obtain ⟨middle, inner, outer⟩ := List.mem_flatMap.mp left
  have short : middle = text := by
    simp only [Pattern.rests] at inner
    split at inner
    · exact List.mem_singleton.mp inner
    · cases inner
  have least := (suffix_of_mem_rests outer).length_le
  rw [short] at least
  exact Nat.lt_succ_of_le least

theorem search_skip (others : ∀ c ∈ front, p c = false) (text : List Char) :
    search (seqs (.one p :: patterns)) (front ++ text) = search (seqs (.one p :: patterns)) text := by
  induction front with
  | nil => rfl
  | cons c front ih =>
    rw [List.cons_append, search, rests_leading (others c List.mem_cons_self), List.head?_nil, Option.none_or]
    exact ih fun d member => others d (List.mem_cons_of_mem _ member)

/-- Where a match stands in front, the text behind it is what is left. -/
theorem removeAll_match {rest : List Char}
    (found : ((seqs (.one p :: patterns)).rests (c :: text)).head? = some rest) :
    removeAll (seqs (.one p :: patterns)) (c :: text) = removeAll (seqs (.one p :: patterns)) rest := by
  rw [removeAll, found]
  exact if_pos (length_lt_of_leading (List.mem_of_head? found))

theorem removeAll_none (none : ((seqs (.one p :: patterns)).rests (c :: text)).head? = Option.none) :
    removeAll (seqs (.one p :: patterns)) (c :: text) = c :: removeAll (seqs (.one p :: patterns)) text := by
  rw [removeAll, none]

theorem removeAll_skip (others : ∀ c ∈ front, p c = false) (text : List Char) :
    removeAll (seqs (.one p :: patterns)) (front ++ text) =
      front ++ removeAll (seqs (.one p :: patterns)) text := by
  induction front with
  | nil => rfl
  | cons c front ih =>
    have apart : ((seqs (.one p :: patterns)).rests (c :: (front ++ text))).head? = none := by
      rw [rests_leading (others c List.mem_cons_self), List.head?_nil]
    rw [List.cons_append, removeAll_none apart, ih fun d member => others d (List.mem_cons_of_mem _ member),
      List.cons_append]

end Leading

end Library.Backtrack
