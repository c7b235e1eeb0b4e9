import Mathlib.Algebra.Order.Ring.Int
import Mathlib.Data.List.Infix

/-!
# Replacement

Every occurrence of a pattern replaced, from the left and without overlap, as `str::replace`
does it, and what it takes for the pattern to occur in a sequence put together from parts.
-/
namespace Library.Replacement

variable {α : Type} [DecidableEq α] (pattern replacement : List α)

/-- `skip` elements of the last occurrence are still to be passed over. -/
def replaceFrom (skip : Nat) : List α → List α
  | [] => []
  | a :: rest =>
    match skip with
    | skip + 1 => replaceFrom skip rest
    | 0 =>
      if pattern.isPrefixOf (a :: rest) then
        replacement ++ replaceFrom (pattern.length - 1) rest
      else a :: replaceFrom 0 rest

/-- `text.replace(pattern, replacement)`, for a pattern that is not empty. -/
def replace (text : List α) : List α := replaceFrom pattern replacement 0 text

variable {pattern replacement}

theorem replaceFrom_eq (skip : Nat) (text : List α) :
    replaceFrom pattern replacement skip text = replace pattern replacement (text.drop skip) := by
  induction text generalizing skip with
  | nil => simp [replaceFrom, replace]
  | cons a rest ih =>
    cases skip with
    | zero => rfl
    | succ skip => exact ih skip

theorem replace_occurrence (nonempty : pattern ≠ []) (rest : List α) :
    replace pattern replacement (pattern ++ rest) =
      replacement ++ replace pattern replacement rest := by
  cases pattern with
  | nil => exact absurd rfl nonempty
  | cons p pattern =>
    have here : (p :: pattern).isPrefixOf (p :: (pattern ++ rest)) = true :=
      List.isPrefixOf_iff_prefix.mpr (List.prefix_append (p :: pattern) rest)
    simp only [replace, List.cons_append, replaceFrom, here, if_true]
    rw [replaceFrom_eq]
    simp [replace]

theorem replace_cons {a : α} {rest : List α} (elsewhere : ¬ pattern <+: a :: rest) :
    replace pattern replacement (a :: rest) = a :: replace pattern replacement rest := by
  have here : pattern.isPrefixOf (a :: rest) = false := by
    rw [Bool.eq_false_iff]
    exact mt List.isPrefixOf_iff_prefix.mp elsewhere
  simp [replace, replaceFrom, here]

theorem replace_of_absent {text : List α} (absent : ¬ pattern <:+: text) :
    replace pattern replacement text = text := by
  induction text with
  | nil => rfl
  | cons a rest ih =>
    rw [replace_cons fun here => absent here.isInfix,
      ih fun later => absent (later.trans (List.suffix_cons a rest).isInfix)]

theorem mem_replace {text : List α} {a : α} (member : a ∈ replace pattern replacement text) :
    a ∈ text ∨ a ∈ replacement := by
  have from_skip : ∀ skip, a ∈ replaceFrom pattern replacement skip text →
      a ∈ text ∨ a ∈ replacement := by
    clear member
    induction text with
    | nil => exact fun _ member => absurd member List.not_mem_nil
    | cons b rest ih =>
      intro skip member
      have later : ∀ {skip}, a ∈ replaceFrom pattern replacement skip rest →
          a ∈ b :: rest ∨ a ∈ replacement := fun found => (ih _ found).imp_left (.tail _)
      cases skip with
      | succ skip => exact later member
      | zero =>
        simp only [replaceFrom] at member
        split at member
        · exact (List.mem_append.mp member).elim .inr later
        · rcases List.mem_cons.mp member with rfl | found
          · exact .inl List.mem_cons_self
          · exact later found
  exact from_skip 0 member

theorem replace_longer (nonempty : pattern ≠ []) (longer : pattern.length < replacement.length)
    (text : List α) :
    text.length ≤ (replace pattern replacement text).length ∧
      (pattern <:+: text → text.length < (replace pattern replacement text).length) := by
  -- after an occurrence the induction goes on behind it, so it runs over the length
  induction size : text.length using Nat.strong_induction_on generalizing text with
  | _ n ih =>
    subst size
    by_cases here : pattern <+: text
    · obtain ⟨rest, rfl⟩ := here
      have positive := List.length_pos_iff.mpr nonempty
      have shorter := (ih rest.length (by rw [List.length_append]; omega) rest rfl).1
      rw [replace_occurrence nonempty, List.length_append, List.length_append]
      omega
    cases text with
    | nil => exact ⟨Nat.le_refl _, fun occurs => absurd (List.infix_nil.mp occurs) nonempty⟩
    | cons a rest =>
      obtain ⟨le, lt⟩ := ih rest.length (Nat.lt_succ_self _) rest rfl
      rw [replace_cons here, List.length_cons, List.length_cons]
      refine ⟨Nat.succ_le_succ le, fun occurs => Nat.succ_lt_succ (lt ?_)⟩
      exact (List.infix_cons_iff.mp occurs).resolve_left here

/-- Replacing changes nothing exactly where there is nothing to replace. -/
theorem replace_eq_self_iff (nonempty : pattern ≠ [])
    (longer : pattern.length < replacement.length) {text : List α} :
    replace pattern replacement text = text ↔ ¬ pattern <:+: text := by
  refine ⟨fun same occurs => ?_, replace_of_absent⟩
  have grown := (replace_longer nonempty longer text).2 occurs
  rw [same] at grown
  omega

/-! ### Occurrences in parts -/

omit [DecidableEq α] in
theorem prefix_append_cons {d : α} (foreign : d ∉ pattern) {front back : List α}
    (opens : pattern <+: front ++ d :: back) : pattern <+: front := by
  induction front generalizing pattern with
  | nil =>
    cases pattern with
    | nil => exact List.prefix_rfl
    | cons p pattern =>
      have same : p = d := (List.cons_prefix_cons.mp opens).1
      exact absurd List.mem_cons_self (same ▸ foreign)
  | cons c front ih =>
    cases pattern with
    | nil => exact List.nil_prefix
    | cons p pattern =>
      obtain ⟨rfl, rest⟩ := List.cons_prefix_cons.mp opens
      exact List.cons_prefix_cons.mpr ⟨rfl, ih (fun later => foreign (.tail _ later)) rest⟩

omit [DecidableEq α] in
/-- An element that the pattern lacks keeps the occurrences on its two sides apart. -/
theorem infix_append_cons_iff {d : α} (foreign : d ∉ pattern) {front back : List α} :
    pattern <:+: front ++ d :: back ↔ pattern <:+: front ∨ pattern <:+: back := by
  constructor
  · intro occurs
    induction front with
    | nil =>
      rcases List.infix_cons_iff.mp occurs with here | later
      · have opens : pattern <+: [] ++ d :: back := here
        exact .inl (prefix_append_cons foreign opens).isInfix
      · exact .inr later
    | cons c front ih =>
      rcases List.infix_cons_iff.mp occurs with here | later
      · exact .inl (prefix_append_cons foreign here).isInfix
      · exact (ih later).imp_left fun inside => inside.trans (List.suffix_cons c front).isInfix
  · rintro (occurs | occurs)
    · exact occurs.trans (List.prefix_append front _).isInfix
    · exact occurs.trans ((List.suffix_cons d back).trans (List.suffix_append front _)).isInfix

omit [DecidableEq α] in
/-- A pattern that begins with an element the front lacks begins behind the front. -/
theorem infix_append_of_not_mem {d : α} {front back : List α} (flat : d ∉ front)
    (occurs : d :: pattern <:+: front ++ back) : d :: pattern <:+: back := by
  induction front with
  | nil => exact occurs
  | cons c front ih =>
    rcases List.infix_cons_iff.mp occurs with here | later
    · exact absurd (List.mem_cons.mpr (.inl (List.cons_prefix_cons.mp here).1)) flat
    · exact ih (fun inside => flat (.tail _ inside)) later

omit [DecidableEq α] in
/-- A sequence is read run by run of one element. -/
theorem runs_induction (c : α) {motive : List α → Prop} (last : ∀ n, motive (List.replicate n c))
    (more : ∀ n d rest, d ≠ c → motive rest → motive (List.replicate n c ++ d :: rest))
    (text : List α) : motive text := by
  have from_run : ∀ n, motive (List.replicate n c ++ text) := by
    induction text with
    | nil => simpa using last
    | cons d rest ih =>
      intro n
      by_cases same : d = c
      · have longer := ih (n + 1)
        rw [List.replicate_succ', List.append_assoc] at longer
        rwa [same]
      · exact more n d rest same (ih 0)
  exact from_run 0

/-! ### Replacement in parts -/

theorem replace_append_cons {d : α} (nonempty : pattern ≠ []) (foreign : d ∉ pattern) (front back : List α) :
    replace pattern replacement (front ++ d :: back) =
      replace pattern replacement front ++ d :: replace pattern replacement back := by
  -- an occurrence ends before the foreign element, and the induction goes on behind it
  induction size : front.length using Nat.strong_induction_on generalizing front with
  | _ n ih =>
    subst size
    by_cases here : pattern <+: front
    · obtain ⟨rest, rfl⟩ := here
      have positive := List.length_pos_iff.mpr nonempty
      have later := ih rest.length (by rw [List.length_append]; omega) rest rfl
      rw [List.append_assoc, replace_occurrence nonempty, later, replace_occurrence nonempty,
        List.append_assoc]
    cases front with
    | nil =>
      have elsewhere : ¬ pattern <+: d :: back := fun opens =>
        here (prefix_append_cons foreign (show pattern <+: [] ++ d :: back from opens))
      rw [List.nil_append, replace_cons elsewhere]
      rfl
    | cons c front =>
      have elsewhere : ¬ pattern <+: c :: (front ++ d :: back) := fun opens =>
        here (prefix_append_cons foreign (show pattern <+: (c :: front) ++ d :: back from opens))
      have later := ih front.length (Nat.lt_succ_self _) front rfl
      rw [List.cons_append, replace_cons elsewhere, later, replace_cons here, List.cons_append]

structure Blind (pattern replacement : List α) (f : α → α) : Prop where
  pattern_iff : ∀ a, ∀ p ∈ pattern, f a = p ↔ a = p
  replacement_same : replacement.map f = replacement

omit [DecidableEq α] in
theorem Blind.prefix_map_iff {f : α → α} (pattern_iff : ∀ a, ∀ p ∈ pattern, f a = p ↔ a = p)
    (text : List α) : pattern <+: text.map f ↔ pattern <+: text := by
  induction pattern generalizing text with
  | nil => exact iff_of_true List.nil_prefix List.nil_prefix
  | cons p pattern ih =>
    cases text with
    | nil => rfl
    | cons a text =>
      have first : p = f a ↔ p = a := by
        rw [eq_comm, pattern_iff a p List.mem_cons_self, eq_comm]
      rw [List.map_cons, List.cons_prefix_cons, List.cons_prefix_cons, first,
        ih (fun b q member => pattern_iff b q (.tail _ member)) text]

theorem replace_map {f : α → α} (blind : Blind pattern replacement f) (nonempty : pattern ≠ [])
    (text : List α) :
    replace pattern replacement (text.map f) = (replace pattern replacement text).map f := by
  induction size : text.length using Nat.strong_induction_on generalizing text with
  | _ n ih =>
    subst size
    by_cases here : pattern <+: text
    · obtain ⟨rest, rfl⟩ := here
      have positive := List.length_pos_iff.mpr nonempty
      have same : pattern.map f = pattern := by
        refine (List.map_congr_left fun p member => ?_).trans (List.map_id pattern)
        exact (blind.pattern_iff p p member).mpr rfl
      have later := ih rest.length (by rw [List.length_append]; omega) rest rfl
      rw [List.map_append, same, replace_occurrence nonempty, later, replace_occurrence nonempty,
        List.map_append, blind.replacement_same]
    cases text with
    | nil => rfl
    | cons a rest =>
      have elsewhere : ¬ pattern <+: f a :: rest.map f := fun opens =>
        here ((Blind.prefix_map_iff blind.pattern_iff (a :: rest)).mp opens)
      rw [List.map_cons, replace_cons elsewhere, ih rest.length (Nat.lt_succ_self _) rest rfl,
        replace_cons here, List.map_cons]

/-! ### The weight of a replacement -/

/-- How many occurrences `replace` replaces. -/
def occurrencesFrom (pattern : List α) (skip : Nat) : List α → Nat
  | [] => 0
  | a :: rest =>
    match skip with
    | skip + 1 => occurrencesFrom pattern skip rest
    | 0 =>
      if pattern.isPrefixOf (a :: rest) then occurrencesFrom pattern (pattern.length - 1) rest + 1
      else occurrencesFrom pattern 0 rest

def occurrences (pattern text : List α) : Nat := occurrencesFrom pattern 0 text

/-- Replacing moves the weight of a text by that of the two words, once for each occurrence. -/
theorem weight_replaceFrom (weight : α → Nat) (nonempty : pattern ≠ []) (skip : Nat) (text : List α) :
    ((replaceFrom pattern replacement skip text).map weight).sum +
        occurrencesFrom pattern skip text * (pattern.map weight).sum =
      ((text.drop skip).map weight).sum +
        occurrencesFrom pattern skip text * (replacement.map weight).sum := by
  induction text generalizing skip with
  | nil => simp [replaceFrom, occurrencesFrom]
  | cons a rest ih =>
    cases skip with
    | succ skip => exact ih skip
    | zero =>
      simp only [replaceFrom, occurrencesFrom, List.drop_zero]
      split
      next here =>
        obtain ⟨tail, whole⟩ := List.isPrefixOf_iff_prefix.mp here
        have later := ih (pattern.length - 1)
        -- what the occurrence covers is passed over, and the rest is its tail
        have passed : rest.drop (pattern.length - 1) = tail := by
          cases pattern with
          | nil => exact absurd rfl nonempty
          | cons p pattern =>
            rw [← (List.cons.inj whole).2]
            exact List.drop_left
        rw [passed] at later
        rw [← whole, List.map_append, List.map_append, List.sum_append, List.sum_append, Nat.add_mul,
          Nat.add_mul]
        omega
      next =>
        have later := ih 0
        simp only [List.drop_zero, List.map_cons, List.sum_cons] at later ⊢
        omega

variable (pattern replacement) in
theorem weight_replace (weight : α → Nat) (nonempty : pattern ≠ []) (text : List α) :
    ((replace pattern replacement text).map weight).sum +
        occurrences pattern text * (pattern.map weight).sum =
      (text.map weight).sum + occurrences pattern text * (replacement.map weight).sum :=
  weight_replaceFrom weight nonempty 0 text

theorem occurrencesFrom_map {f : α → α} (pattern_iff : ∀ a, ∀ p ∈ pattern, f a = p ↔ a = p) (skip : Nat)
    (text : List α) : occurrencesFrom pattern skip (text.map f) = occurrencesFrom pattern skip text := by
  induction text generalizing skip with
  | nil => rfl
  | cons a rest ih =>
    cases skip with
    | succ skip => exact ih skip
    | zero =>
      have same : pattern.isPrefixOf (f a :: rest.map f) = pattern.isPrefixOf (a :: rest) := by
        rw [Bool.eq_iff_iff, List.isPrefixOf_iff_prefix, List.isPrefixOf_iff_prefix]
        exact Blind.prefix_map_iff pattern_iff (a :: rest)
      simp only [List.map_cons, occurrencesFrom, same, ih]

end Library.Replacement
