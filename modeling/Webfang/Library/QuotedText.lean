import Mathlib.Data.List.Infix
import Mathlib.Data.List.TakeWhile

/-!
# Quoted text in a line

Text between quotation marks, in which a backslash escapes the character behind it, and what of a line
stands outside of it. A marker is what stands between an opening word and a closing character.
-/
namespace Library.QuotedText

/-- What may stand between quotation marks. -/
inductive Escaped : List Char → Prop
  | nil : Escaped []
  | plain {c : Char} {rest : List Char} (noQuote : c ≠ '"') (noEscape : c ≠ '\\') (more : Escaped rest) :
    Escaped (c :: rest)
  | escape {c : Char} {rest : List Char} (more : Escaped rest) : Escaped ('\\' :: c :: rest)

theorem Escaped.of_plain {text : List Char} (plain : ∀ c ∈ text, c ≠ '"' ∧ c ≠ '\\') : Escaped text := by
  induction text with
  | nil => exact .nil
  | cons c rest ih =>
    have first := plain c List.mem_cons_self
    exact .plain first.1 first.2 (ih fun d member => plain d (List.mem_cons_of_mem _ member))

/-- A line without its quoted text, whose quotation marks stay. The flag says whether it starts inside. -/
def outside : Bool → List Char → List Char
  | _, [] => []
  | false, c :: rest => c :: outside (c == '"') rest
  | true, '\\' :: _ :: rest => outside true rest
  | true, c :: rest => if c == '"' then '"' :: outside false rest else outside true rest

/-- The texts between each opening word and the next closing character. -/
def markers (opening : List Char) (closing : Char) : List Char → List (List Char)
  | [] => []
  | c :: rest =>
    (if opening <+: c :: rest then [((c :: rest).drop opening.length).takeWhile (· != closing)] else []) ++
      markers opening closing rest

theorem outside_plain {text : List Char} (noQuote : '"' ∉ text) (rest : List Char) :
    outside false (text ++ rest) = text ++ outside false rest := by
  induction text with
  | nil => rfl
  | cons c more ih =>
    obtain ⟨apart, noQuote⟩ := not_or.mp (List.mem_cons.not.mp noQuote)
    have first : (c == '"') = false := by simpa using Ne.symm apart
    rw [List.cons_append, outside, first, ih noQuote, List.cons_append]

theorem outside_escaped {text : List Char} (escaped : Escaped text) (rest : List Char) :
    outside true (text ++ '"' :: rest) = '"' :: outside false rest := by
  induction escaped with
  | nil => simp [outside]
  | @plain c more noQuote noEscape _ ih =>
    have skip : outside true (c :: (more ++ '"' :: rest)) = outside true (more ++ '"' :: rest) := by
      rw [outside]
      · simp [noQuote]
      · exact fun _ _ same _ => noEscape same
    rw [List.cons_append, skip, ih]
  | escape _ ih => exact ih

theorem outside_quoted {text : List Char} (escaped : Escaped text) (rest : List Char) :
    outside false ('"' :: (text ++ '"' :: rest)) = '"' :: '"' :: outside false rest := by
  rw [outside, show ('"' == '"') = true from rfl, outside_escaped escaped]

/-- Two words that are followed by something else. -/
theorem split_at_word {α : Type} {p : α → Bool} {word other xs ys : List α} {c d : α}
    (first : ∀ a ∈ word, p a = true)
    (second : ∀ a ∈ other, p a = true) (ends : p c = false) (ends' : p d = false)
    (same : word ++ c :: xs = other ++ d :: ys) : word = other ∧ c = d ∧ xs = ys := by
  induction word generalizing other with
  | nil =>
    cases other with
    | nil => exact ⟨rfl, List.cons.inj same⟩
    | cons b rest =>
      rw [(List.cons.inj same).1, second b List.mem_cons_self] at ends
      cases ends
  | cons a word ih =>
    cases other with
    | nil =>
      rw [← (List.cons.inj same).1, first a List.mem_cons_self] at ends'
      cases ends'
    | cons b rest =>
      obtain ⟨rfl, behind⟩ := List.cons.inj same
      obtain ⟨rfl, equal⟩ := ih (fun c member => first c (List.mem_cons_of_mem _ member))
        (fun c member => second c (List.mem_cons_of_mem _ member)) behind
      exact ⟨rfl, equal⟩

/-- What comes first without a character stands in front of it. -/
theorem prefix_of_notMem {α : Type} {front back text rest : List α} {stop : α} (absent : stop ∉ front)
    (same : text ++ stop :: rest = front ++ back) : front <+: text := by
  rcases List.append_eq_append_iff.mp same with ⟨more, split, behind⟩ | ⟨more, split, -⟩
  · cases more with
    | nil => exact ⟨[], by simpa using split⟩
    | cons c more =>
      obtain ⟨rfl, -⟩ := List.cons.inj behind
      exact absurd (split ▸ List.mem_append_right text List.mem_cons_self) absent
  · exact ⟨more, split.symm⟩

section Markers

variable {opening : List Char} {closing : Char}

theorem takeWhile_flat {word : List Char} (flat : closing ∉ word) (back : List Char) :
    (word ++ closing :: back).takeWhile (· != closing) = word := by
  rw [List.takeWhile_append_of_pos, List.takeWhile_cons_of_neg (by simp), List.append_nil]
  intro d inside
  rw [bne_iff_ne]
  rintro rfl
  exact flat inside

theorem mem_markers (nonempty : opening ≠ []) {word : List Char} (flat : closing ∉ word)
    (front back : List Char) :
    word ∈ markers opening closing (front ++ (opening ++ (word ++ closing :: back))) := by
  induction front with
  | nil =>
    cases opening with
    | nil => exact absurd rfl nonempty
    | cons c rest =>
      have starts : c :: rest <+: c :: (rest ++ (word ++ closing :: back)) := ⟨word ++ closing :: back, rfl⟩
      rw [List.nil_append, List.cons_append, markers, if_pos starts]
      apply List.mem_append_left
      simp only [List.length_cons, List.drop_succ_cons, List.drop_left, List.mem_singleton]
      exact (takeWhile_flat flat back).symm
  | cons c rest ih =>
    rw [List.cons_append, markers]
    exact List.mem_append_right _ ih

theorem markers_cons {c : Char} {rest : List Char} (apart : ¬ opening <+: c :: rest) :
    markers opening closing (c :: rest) = markers opening closing rest := by
  rw [markers, if_neg apart, List.nil_append]

/-- Text without the first character of the opening word is passed over. -/
theorem markers_append_of_notMem {c : Char} {word front : List Char} (absent : c ∉ front) (back : List Char) :
    markers (c :: word) closing (front ++ back) = markers (c :: word) closing back := by
  induction front with
  | nil => rfl
  | cons d rest ih =>
    obtain ⟨apart, absent⟩ := not_or.mp (List.mem_cons.not.mp absent)
    have here : ¬ c :: word <+: d :: (rest ++ back) := fun starts => apart (List.cons_prefix_cons.mp starts).1
    rw [List.cons_append, markers_cons here, ih absent]

/-- A word that starts in a text and ends behind it goes over what follows. -/
theorem not_prefix_append {after back : List Char} {stop : Char} (absent : ¬ opening <+: after)
    (apart : stop ∉ opening.tail) (more : after ≠ []) : ¬ opening <+: after ++ stop :: back := by
  intro starts
  rcases List.prefix_or_prefix_of_prefix starts (List.prefix_append after (stop :: back)) with within | short
  · exact absent within
  · obtain ⟨rest, rfl⟩ := short
    rw [List.prefix_append_right_inj] at starts
    cases rest with
    | nil => exact absent (by simp)
    | cons c rest =>
      obtain ⟨rfl, -⟩ := List.cons_prefix_cons.mp starts
      cases after with
      | nil => exact more rfl
      | cons d after => exact apart (by simp)

/-- Text without the opening word is passed over, where it is followed by something that is not in it. -/
theorem markers_append {front back : List Char} {stop : Char} (absent : ¬ opening <:+: front)
    (apart : stop ∉ opening.tail) :
    markers opening closing (front ++ stop :: back) = markers opening closing (stop :: back) := by
  induction front with
  | nil => rfl
  | cons c rest ih =>
    have here : ¬ opening <+: c :: rest := fun starts => absent starts.isInfix
    have longer : ¬ opening <+: c :: (rest ++ stop :: back) :=
      not_prefix_append here apart (List.cons_ne_nil c rest)
    rw [List.cons_append, markers_cons longer]
    exact ih fun inside => absent (inside.trans (List.suffix_cons c rest).isInfix)

theorem markers_found {c : Char} {word text : List Char} (flat : closing ∉ word ++ text)
    (absent : ¬ c :: word <:+: word ++ text) (rest : List Char) :
    markers (c :: word) closing (c :: word ++ (text ++ closing :: rest)) =
      text :: markers (c :: word) closing (closing :: rest) := by
  have starts : c :: word <+: c :: (word ++ (text ++ closing :: rest)) := ⟨text ++ closing :: rest, rfl⟩
  have unread : closing ∉ (c :: word).tail := fun inside => flat (List.mem_append_left text inside)
  have taken := takeWhile_flat (fun inside => flat (List.mem_append_right word inside)) rest
  rw [List.cons_append, markers, if_pos starts]
  simp only [List.length_cons, List.drop_succ_cons, List.drop_left, taken, List.singleton_append]
  rw [← List.append_assoc, markers_append absent unread]

end Markers

end Library.QuotedText
