import Webfang.Library.Text

/-!
# Squeezed runs

Every run of blanks in a text becomes one space. A text between others is squeezed by itself but for a run
that reaches over its front, and squeezing parts first makes no difference to the whole.
-/
namespace Library.Squeeze

/-- Blanks are the characters of `p`; at the front of the text a run goes on or not. -/
def squeeze (p : Char → Bool) (inRun : Bool) : List Char → List Char
  | [] => []
  | c :: rest =>
    if p c then if inRun then squeeze p true rest else ' ' :: squeeze p true rest
    else c :: squeeze p false rest

variable {p : Char → Bool} {c : Char} {text front back : List Char}

theorem squeeze_blank (blank : p c = true) (inRun : Bool) (rest : List Char) :
    squeeze p inRun (c :: rest) = (if inRun then [] else [' ']) ++ squeeze p true rest := by
  rw [squeeze, if_pos blank]
  cases inRun <;> rfl

theorem squeeze_other (other : p c = false) (inRun : Bool) (rest : List Char) :
    squeeze p inRun (c :: rest) = c :: squeeze p false rest := by
  rw [squeeze, other, if_neg Bool.false_ne_true]

theorem squeeze_append (front back : List Char) (inRun : Bool) :
    squeeze p inRun (front ++ back) =
      squeeze p inRun front ++ squeeze p ((front.getLast?.map p).getD inRun) back := by
  induction front generalizing inRun with
  | nil => rfl
  | cons c front ih =>
    have last : ((c :: front).getLast?.map p).getD inRun = (front.getLast?.map p).getD (p c) := by
      rw [List.getLast?_cons]
      cases front.getLast? <;> rfl
    rw [List.cons_append, last]
    cases blank : p c with
    | false => rw [squeeze_other blank, squeeze_other blank, ih, List.cons_append]
    | true => rw [squeeze_blank blank, squeeze_blank blank, ih, List.append_assoc]

theorem squeeze_congr {other : List Char} (same : ∀ inRun, squeeze p inRun text = squeeze p inRun other)
    (front : List Char) (inRun : Bool) :
    squeeze p inRun (front ++ text) = squeeze p inRun (front ++ other) := by
  rw [squeeze_append, squeeze_append, same]

theorem squeeze_of_absent (absent : ∀ c ∈ text, p c = false) (inRun : Bool) :
    squeeze p inRun text = text := by
  induction text generalizing inRun with
  | nil => rfl
  | cons c rest ih =>
    rw [squeeze_other (absent c List.mem_cons_self), ih fun d member => absent d (.tail _ member)]

/-- Behind a run, more of its characters make no difference. -/
theorem squeeze_run (blanks : ∀ c ∈ front, p c = true) (back : List Char) :
    squeeze p true (front ++ back) = squeeze p true back := by
  induction front with
  | nil => rfl
  | cons c front ih =>
    rw [List.cons_append, squeeze_blank (blanks c List.mem_cons_self), if_pos rfl, List.nil_append]
    exact ih fun d member => blanks d (.tail _ member)

theorem squeeze_run_twice (blanks : ∀ c ∈ front, p c = true) (inRun : Bool) (back : List Char) :
    squeeze p inRun (front ++ (front ++ back)) = squeeze p inRun (front ++ back) := by
  cases front with
  | nil => rfl
  | cons c front =>
    have blank := blanks c List.mem_cons_self
    have rest : ∀ d ∈ front, p d = true := fun d member => blanks d (.tail _ member)
    rw [List.cons_append, squeeze_blank blank, List.cons_append, squeeze_blank blank, squeeze_run rest,
      squeeze_blank blank, if_pos rfl, List.nil_append]

theorem length_squeeze_le (text : List Char) (inRun : Bool) :
    (squeeze p inRun text).length ≤ text.length := by
  induction text generalizing inRun with
  | nil => exact Nat.le_refl 0
  | cons c rest ih =>
    rw [squeeze]
    split
    · split
      · exact (ih _).trans (Nat.le_succ _)
      · exact Nat.succ_le_succ (ih _)
    · exact Nat.succ_le_succ (ih _)

theorem mem_squeeze {d : Char} {inRun : Bool} (other : d ≠ ' ') (member : d ∈ squeeze p inRun text) :
    d ∈ text ∧ p d = false := by
  induction text generalizing inRun with
  | nil => cases member
  | cons c rest ih =>
    cases blank : p c with
    | true =>
      rw [squeeze_blank blank, List.mem_append] at member
      have later : d ∈ squeeze p true rest := by
        rcases member with space | later
        · cases inRun with
          | true => cases space
          | false => exact absurd (List.mem_singleton.mp space) other
        · exact later
      exact ⟨.tail _ (ih later).1, (ih later).2⟩
    | false =>
      rw [squeeze_other blank] at member
      rcases List.mem_cons.mp member with rfl | later
      · exact ⟨List.mem_cons_self, blank⟩
      · exact ⟨.tail _ (ih later).1, (ih later).2⟩

/-- Only the blanks matter, not which they are. -/
theorem squeeze_map {change : Char → Char} (kind : ∀ c, p (change c) = p c)
    (fixed : ∀ c, p c = false → change c = c) (text : List Char) (inRun : Bool) :
    squeeze p inRun (text.map change) = squeeze p inRun text := by
  induction text generalizing inRun with
  | nil => rfl
  | cons c rest ih =>
    rw [List.map_cons]
    cases blank : p c with
    | true => rw [squeeze_blank ((kind c).trans blank), squeeze_blank blank, ih]
    | false => rw [fixed c blank, squeeze_other blank, squeeze_other blank, ih]

section Space

variable (space : p ' ' = true)
include space

theorem filter_squeeze (text : List Char) (inRun : Bool) :
    (squeeze p inRun text).filter (fun c => !p c) = text.filter fun c => !p c := by
  induction text generalizing inRun with
  | nil => rfl
  | cons c rest ih =>
    cases blank : p c with
    | true =>
      rw [squeeze_blank blank, List.filter_append, ih, List.filter_cons_of_neg (by simp [blank])]
      cases inRun with
      | true => rfl
      | false => rw [if_neg Bool.false_ne_true, List.filter_cons_of_neg (by simp [space])]; rfl
    | false =>
      rw [squeeze_other blank, List.filter_cons_of_pos (by simp [blank]), ih,
        List.filter_cons_of_pos (by simp [blank])]

theorem dropWhile_squeeze (text : List Char) (inRun : Bool) :
    (squeeze p inRun text).dropWhile p = squeeze p false (text.dropWhile p) := by
  induction text generalizing inRun with
  | nil => rfl
  | cons c rest ih =>
    cases blank : p c with
    | true =>
      rw [squeeze_blank blank, List.dropWhile_cons_of_pos blank, List.dropWhile_append_of_pos, ih]
      intro d member
      cases inRun with
      | true => cases member
      | false =>
        rw [List.mem_singleton.mp member]
        exact space
    | false =>
      rw [squeeze_other blank, List.dropWhile_cons_of_neg (by simp [blank]),
        List.dropWhile_cons_of_neg (by simp [blank]), squeeze_other blank]

/-- The blanks behind a text may be taken off before or afterwards. -/
theorem rdropWhile_squeeze (text : List Char) :
    (squeeze p true text).rdropWhile p = squeeze p true (text.rdropWhile p) := by
  induction text using List.reverseRecOn with
  | nil => rfl
  | append_singleton text c ih =>
    rw [squeeze_append]
    cases blank : p c with
    | true =>
      rw [List.rdropWhile_concat_pos p text c blank, ← ih, squeeze_blank blank]
      split
      · rw [squeeze, List.append_nil, List.append_nil]
      · exact List.rdropWhile_concat_pos p _ ' ' space
    | false =>
      rw [List.rdropWhile_concat_neg p text c (by simp [blank]), squeeze_other blank, squeeze_append,
        squeeze_other blank]
      exact List.rdropWhile_concat_neg p _ c (by simp [blank])

/-- A part may be squeezed first; where its front is taken for part of a run, it has to be part of one. -/
theorem squeeze_squeeze_append (text back : List Char) {inner outer : Bool}
    (within : inner = true → outer = true) :
    squeeze p outer (squeeze p inner text ++ back) = squeeze p outer (text ++ back) := by
  induction text generalizing inner outer with
  | nil => rfl
  | cons c rest ih =>
    rw [List.cons_append]
    cases blank : p c with
    | true =>
      have run := @ih true true id
      rw [squeeze_blank blank, squeeze_blank blank, ← run]
      cases inner with
      | true => rw [within rfl]; rfl
      | false =>
        rw [if_neg Bool.false_ne_true, List.append_assoc, List.singleton_append, squeeze_blank space]
    | false =>
      rw [squeeze_other blank, squeeze_other blank, List.cons_append, squeeze_other blank, @ih false false id]

end Space

end Library.Squeeze
