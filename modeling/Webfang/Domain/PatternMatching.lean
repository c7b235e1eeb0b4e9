import Webfang.Library.Backtrack

/-!
# URLs and glob patterns

`match_url_pattern` of `domain/pattern_matching`: a pattern with wildcards becomes a regular expression whose
dot takes no line feed, and a pattern with an opening bracket but no wildcard has to be the whole URL.
-/
namespace Webfang.Domain.PatternMatching

open Library Backtrack

def hasGlobMetachars (pattern : List Char) : Bool :=
  pattern.contains '*' || pattern.contains '?' || pattern.contains '['

/-- The dot of `regex`, which is not asked to take line feeds. -/
def anyChar (c : Char) : Bool := c != '\n'

/-- What `glob_to_regex` writes between `^` and `$`. -/
def globToRegex : List Char → List Pattern
  | [] => []
  | '*' :: '*' :: pattern => .greedy anyChar :: globToRegex pattern
  | '*' :: pattern => .greedy anyChar :: globToRegex pattern
  | '?' :: pattern => .one anyChar :: globToRegex pattern
  | c :: pattern => .one (· == c) :: globToRegex pattern

/-- `compiles` tells whether the expression of a pattern stays within the size limit of `regex`. -/
def matchUrlPattern (compiles : List Char → Bool) (url pattern : List Char) : Bool :=
  if pattern = [] ∨ pattern = ['*'] then true
  else if hasGlobMetachars pattern then compiles pattern && takesAll (seqs (globToRegex pattern)) url
  else url == pattern || decide (pattern <:+: url)

/-! ### Cuts -/

/-- The text can be cut along the pattern, with pieces of such characters for its wildcards. -/
inductive Cut (takes : Char → Prop) : List Char → List Char → Prop
  | nil : Cut takes [] []
  | star {pattern text : List Char} (piece : List Char) (taken : ∀ c ∈ piece, takes c)
      (rest : Cut takes pattern text) : Cut takes ('*' :: pattern) (piece ++ text)
  | one {pattern text : List Char} (c : Char) (taken : takes c) (rest : Cut takes pattern text) :
      Cut takes ('?' :: pattern) (c :: text)
  | literal {pattern text : List Char} (c : Char) (plain : c ≠ '*' ∧ c ≠ '?') (rest : Cut takes pattern text) :
      Cut takes (c :: pattern) (c :: text)

def Anything (_ : Char) : Prop := True

variable {takes : Char → Prop} {pattern text : List Char}

theorem cut_nil_iff : Cut takes [] text ↔ text = [] := by
  constructor
  · rintro ⟨⟩
    rfl
  · rintro rfl
    exact .nil

theorem cut_star_iff : Cut takes ('*' :: pattern) text ↔
    ∃ piece rest, text = piece ++ rest ∧ (∀ c ∈ piece, takes c) ∧ Cut takes pattern rest := by
  constructor
  · intro cut
    cases cut with
    | star piece taken rest => exact ⟨piece, _, rfl, taken, rest⟩
    | literal c plain => exact absurd rfl plain.1
  · rintro ⟨piece, rest, rfl, taken, cut⟩
    exact .star piece taken cut

theorem cut_one_iff : Cut takes ('?' :: pattern) text ↔
    ∃ c rest, text = c :: rest ∧ takes c ∧ Cut takes pattern rest := by
  constructor
  · intro cut
    cases cut with
    | one c taken rest => exact ⟨c, _, rfl, taken, rest⟩
    | literal c plain => exact absurd rfl plain.2
  · rintro ⟨c, rest, rfl, taken, cut⟩
    exact .one c taken cut

theorem cut_literal_iff {c : Char} (plain : c ≠ '*' ∧ c ≠ '?') : Cut takes (c :: pattern) text ↔
    ∃ rest, text = c :: rest ∧ Cut takes pattern rest := by
  constructor
  · intro cut
    cases cut with
    | star => exact absurd rfl plain.1
    | one => exact absurd rfl plain.2
    | literal c plain rest => exact ⟨_, rfl, rest⟩
  · rintro ⟨rest, rfl, cut⟩
    exact .literal c plain cut

theorem cut_stars_iff : Cut takes ('*' :: '*' :: pattern) text ↔ Cut takes ('*' :: pattern) text := by
  rw [cut_star_iff]
  constructor
  · rintro ⟨piece, rest, rfl, taken, cut⟩
    obtain ⟨second, rest, rfl, taken', cut⟩ := cut_star_iff.mp cut
    rw [← List.append_assoc]
    exact .star _ (List.forall_mem_append.mpr ⟨taken, taken'⟩) cut
  · intro cut
    exact ⟨[], text, rfl, by simp, cut⟩

/-- Of every cut the wildcards take the characters of a kind that the pattern does not spell. -/
theorem Cut.count_le (cut : Cut takes pattern text) {c : Char} (plain : c ≠ '*' ∧ c ≠ '?') :
    pattern.count c ≤ text.count c := by
  induction cut with
  | nil => exact Nat.le_refl _
  | star piece _ _ ih =>
    rw [List.count_cons_of_ne plain.1.symm, List.count_append]
    omega
  | one d _ _ ih =>
    rw [List.count_cons_of_ne plain.2.symm, List.count_cons]
    omega
  | literal d _ _ ih =>
    rw [List.count_cons, List.count_cons]
    omega

/-- The wildcards can do without a character if and only if the text has it as often as the pattern. -/
theorem cut_without_iff {c : Char} (plain : c ≠ '*' ∧ c ≠ '?') :
    Cut (· ≠ c) pattern text ↔ Cut Anything pattern text ∧ text.count c = pattern.count c := by
  constructor
  · intro cut
    induction cut with
    | nil => exact ⟨.nil, rfl⟩
    | star piece taken _ ih =>
      have absent : c ∉ piece := fun inside => taken c inside rfl
      refine ⟨.star piece (fun _ _ => trivial) ih.1, ?_⟩
      rw [List.count_append, List.count_eq_zero.mpr absent, Nat.zero_add, ih.2,
        List.count_cons_of_ne plain.1.symm]
    | one d taken _ ih =>
      refine ⟨.one d trivial ih.1, ?_⟩
      rw [List.count_cons_of_ne taken, ih.2, List.count_cons_of_ne plain.2.symm]
    | literal d different _ ih =>
      exact ⟨.literal d different ih.1, by rw [List.count_cons, List.count_cons, ih.2]⟩
  · rintro ⟨cut, counts⟩
    induction cut with
    | nil => exact .nil
    -- the rest has the character as often as the pattern, so a wildcard has taken none
    | star piece _ cut ih =>
      have least := cut.count_le plain
      rw [List.count_append, List.count_cons_of_ne plain.1.symm] at counts
      have absent : c ∉ piece := List.count_eq_zero.mp (by omega)
      exact .star piece (fun d member same => absent (same ▸ member)) (ih (by omega))
    | one d _ cut ih =>
      have least := cut.count_le plain
      rw [List.count_cons, List.count_cons_of_ne plain.2.symm] at counts
      have apart : d ≠ c := by
        rintro rfl
        rw [beq_self_eq_true, if_pos rfl] at counts
        omega
      exact .one d apart (ih (by rw [beq_false_of_ne apart] at counts; simpa using counts))
    | literal d different cut ih =>
      rw [List.count_cons, List.count_cons] at counts
      exact .literal d different (ih (by omega))

theorem anyChar_iff {c : Char} : anyChar c = true ↔ c ≠ '\n' := bne_iff_ne

theorem star_takes (ih : ∀ text, [] ∈ (seqs (globToRegex pattern)).rests text ↔ Cut (· ≠ '\n') pattern text)
    (text : List Char) : [] ∈ (seqs (.greedy anyChar :: globToRegex pattern)).rests text ↔
      Cut (· ≠ '\n') ('*' :: pattern) text := by
  rw [rests_seqs_cons, List.mem_flatMap, cut_star_iff]
  constructor
  · rintro ⟨rest, left, none⟩
    obtain ⟨run, rfl, all⟩ := mem_rests_greedy.mp left
    exact ⟨run, rest, rfl, fun c member => anyChar_iff.mp (all c member), (ih rest).mp none⟩
  · rintro ⟨piece, rest, rfl, taken, cut⟩
    refine ⟨rest, mem_rests_greedy.mpr ⟨piece, rfl, fun c member => anyChar_iff.mpr (taken c member)⟩, ?_⟩
    exact (ih rest).mpr cut

theorem one_takes {p : Char → Bool} {patterns : List Pattern} : [] ∈ (seqs (.one p :: patterns)).rests text ↔
    ∃ c rest, text = c :: rest ∧ p c = true ∧ [] ∈ (seqs patterns).rests rest := by
  rw [rests_seqs_cons]
  cases text with
  | nil => simp [Pattern.rests]
  | cons c text => by_cases taken : p c = true <;> simp [Pattern.rests, taken]

theorem mem_rests_globToRegex (pattern text : List Char) :
    [] ∈ (seqs (globToRegex pattern)).rests text ↔ Cut (· ≠ '\n') pattern text := by
  induction pattern using globToRegex.induct generalizing text with
  | case1 => simp [globToRegex, seqs, Pattern.rests, cut_nil_iff, eq_comm]
  | case2 pattern ih =>
    rw [globToRegex, cut_stars_iff]
    exact star_takes ih text
  | case3 pattern single ih =>
    rw [globToRegex]
    · exact star_takes ih text
    · exact single
  | case4 pattern ih =>
    rw [globToRegex, one_takes, cut_one_iff]
    simp only [anyChar_iff, ih]
  | case5 c pattern _ star one ih =>
    have plain : c ≠ '*' ∧ c ≠ '?' := ⟨star, one⟩
    rw [globToRegex, one_takes, cut_literal_iff plain]
    · simp only [beq_iff_eq, ih]
      constructor
      · rintro ⟨_, rest, rfl, rfl, cut⟩
        exact ⟨rest, rfl, cut⟩
      · rintro ⟨rest, rfl, cut⟩
        exact ⟨c, rest, rfl, rfl, cut⟩
    all_goals assumption

/-! ### What the tool answers -/

def Wild (pattern : List Char) : Prop := '*' ∈ pattern ∨ '?' ∈ pattern

/-- With a wildcard the whole URL is cut along the pattern, without one the pattern occurs in it. -/
def Covers (pattern url : List Char) : Prop :=
  (Wild pattern ∧ Cut Anything pattern url) ∨ (¬ Wild pattern ∧ pattern <:+: url)

/-- What the code asks for besides: with a wildcard as many line feeds in the URL as in the pattern, with a
bracket and no wildcard equality, and for both an expression within the limit. -/
def Narrowed (compiles : List Char → Bool) (pattern url : List Char) : Prop :=
  (Wild pattern ∧ pattern ≠ ['*'] → url.count '\n' = pattern.count '\n' ∧ compiles pattern = true) ∧
    (¬ Wild pattern ∧ '[' ∈ pattern → url = pattern ∧ compiles pattern = true)

theorem cut_of_not_wild (tame : ¬ Wild pattern) : Cut takes pattern text ↔ text = pattern := by
  induction pattern generalizing text with
  | nil => exact cut_nil_iff
  | cons c pattern ih =>
    rw [Wild, List.mem_cons, List.mem_cons, not_or, not_or, not_or] at tame
    rw [cut_literal_iff ⟨Ne.symm tame.1.1, Ne.symm tame.2.1⟩]
    simp only [ih (not_or.mpr ⟨tame.1.2, tame.2.2⟩)]
    exact ⟨fun ⟨_, whole, same⟩ => same ▸ whole, fun whole => ⟨pattern, whole, rfl⟩⟩

theorem matchUrlPattern_iff {compiles : List Char → Bool} {url pattern : List Char} (given : pattern ≠ []) :
    matchUrlPattern compiles url pattern = true ↔ Covers pattern url ∧ Narrowed compiles pattern url := by
  have feed : '\n' ≠ '*' ∧ '\n' ≠ '?' := by decide
  unfold matchUrlPattern Covers Narrowed
  by_cases star : pattern = ['*']
  · subst star
    have wild : Wild ['*'] := .inl List.mem_cons_self
    have cut : Cut Anything ['*'] url := cut_star_iff.mpr ⟨url, [], by simp, fun _ _ => trivial, .nil⟩
    simp [wild, cut]
  rw [if_neg (not_or.mpr ⟨given, star⟩)]
  -- the code asks for a metacharacter, the documentation for a wildcard: they differ in the bracket
  by_cases wild : Wild pattern
  · have globs : hasGlobMetachars pattern = true := by
      rcases wild with member | member <;> simp [hasGlobMetachars, member]
    rw [if_pos globs, Bool.and_eq_true, takesAll_iff, mem_rests_globToRegex, cut_without_iff feed]
    simp only [wild, star, not_true_eq_false, ne_eq, not_false_eq_true, true_and, false_and, or_false,
      forall_const, false_implies, and_true]
    exact ⟨fun ⟨fits, cut, counts⟩ => ⟨cut, counts, fits⟩, fun ⟨cut, counts, fits⟩ => ⟨fits, cut, counts⟩⟩
  · have plain : '*' ∉ pattern ∧ '?' ∉ pattern := not_or.mp wild
    by_cases bracket : '[' ∈ pattern
    · have globs : hasGlobMetachars pattern = true := by simp [hasGlobMetachars, bracket]
      rw [if_pos globs, Bool.and_eq_true, takesAll_iff, mem_rests_globToRegex, cut_of_not_wild wild]
      simp only [wild, bracket, not_false_eq_true, true_and, false_and, false_or, false_implies, forall_const]
      exact ⟨fun ⟨fits, same⟩ => ⟨same ▸ List.infix_rfl, same, fits⟩, fun ⟨_, same, fits⟩ => ⟨fits, same⟩⟩
    · have globs : ¬ hasGlobMetachars pattern = true := by simp [hasGlobMetachars, plain, bracket]
      rw [if_neg globs, Bool.or_eq_true, beq_iff_eq, decide_eq_true_eq]
      simp only [wild, bracket, not_false_eq_true, true_and, false_and, false_or, false_implies, and_false,
        and_true]
      exact or_iff_right_of_imp fun same => same ▸ List.infix_rfl

/-- The tool answers as its pattern says, unless the pattern covers the URL and the code asks for more. -/
theorem matchUrlPattern_covers_iff (compiles : List Char → Bool) {url pattern : List Char} (given : pattern ≠ []) :
    (matchUrlPattern compiles url pattern = true ↔ Covers pattern url) ↔
      (Covers pattern url → Narrowed compiles pattern url) := by
  rw [matchUrlPattern_iff given]
  exact ⟨fun same covers => (same.mpr covers).2, fun narrowed => and_iff_left_of_imp narrowed⟩

/-- A line feed in the URL, a wildcard that could take it, and a bracket in a pattern without wildcards. -/
theorem line_feed_and_bracket_missed : (Covers "*page*".toList "https://a.org/x\npage".toList ∧
      matchUrlPattern (fun _ => true) "https://a.org/x\npage".toList "*page*".toList = false) ∧
    (Covers "ids[]".toList "https://a.org/x?ids[]=1".toList ∧
      matchUrlPattern (fun _ => true) "https://a.org/x?ids[]=1".toList "ids[]".toList = false) := by
  have cut : Cut Anything "*page*".toList "https://a.org/x\npage".toList := by
    refine cut_star_iff.mpr ⟨"https://a.org/x\n".toList, "page".toList, by decide, fun _ _ => trivial, ?_⟩
    refine .literal _ (by decide) (.literal _ (by decide) (.literal _ (by decide) (.literal _ (by decide) ?_)))
    exact cut_star_iff.mpr ⟨[], [], rfl, fun _ _ => trivial, .nil⟩
  have wild : Wild "*page*".toList := .inl List.mem_cons_self
  have tame : ¬ Wild "ids[]".toList := by
    unfold Wild
    decide
  constructor
  · refine ⟨.inl ⟨wild, cut⟩, Bool.eq_false_iff.mpr fun found => ?_⟩
    have narrowed := ((matchUrlPattern_iff (by decide)).mp found).2
    exact absurd (narrowed.1 ⟨wild, by decide⟩).1 (by decide)
  · refine ⟨.inr ⟨tame, "https://a.org/x?".toList, "=1".toList, by decide⟩, Bool.eq_false_iff.mpr fun found => ?_⟩
    have narrowed := ((matchUrlPattern_iff (by decide)).mp found).2
    exact absurd (narrowed.2 ⟨tame, by decide⟩).1 (by decide)

theorem globstar_answered : matchUrlPattern (fun _ => true) "https://a.org/catalogue/1".toList
    "**/catalogue/?".toList = true ↔ Covers "**/catalogue/?".toList "https://a.org/catalogue/1".toList :=
  (matchUrlPattern_covers_iff (fun _ => true) (by decide)).mpr fun _ =>
    ⟨fun _ => by decide, fun plain => absurd (.inl (by decide)) plain.1⟩

end Webfang.Domain.PatternMatching
