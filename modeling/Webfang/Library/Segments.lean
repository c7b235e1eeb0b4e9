import Mathlib.Algebra.Order.Ring.Int
import Mathlib.Data.List.DropRight

/-!
# Delimited segments

A sequence read piece by piece up to a delimiter, as a line reader reads bytes. Every
sequence splits into its terminated prefix, which ends in a delimiter or is empty, and its
torn tail, which holds none. Only the tail can be a segment without its delimiter.
-/
namespace Library.Segments

variable {α : Type} [DecidableEq α] (delim : α)

/-- One read up to and including the first delimiter, and what follows it. -/
def readUntil : List α → List α × List α
  | [] => ([], [])
  | b :: rest =>
    if b = delim then ([b], rest)
    else (b :: (readUntil rest).1, (readUntil rest).2)

/-- The pieces that successive reads return. -/
def segments : List α → List (List α)
  | [] => []
  | b :: rest =>
    if b = delim then [b] :: segments rest
    else
      match segments rest with
      | [] => [[b]]
      | segment :: later => (b :: segment) :: later

def terminatedPrefix (xs : List α) : List α := xs.rdropWhile fun b => decide (b ≠ delim)

def tornTail (xs : List α) : List α := xs.rtakeWhile fun b => decide (b ≠ delim)

def Terminated (xs : List α) : Prop := xs = [] ∨ ∃ before, xs = before ++ [delim]

variable {delim}

/-- `segments` is the read loop: read once, go on with the rest, stop at the end. -/
theorem segments_readUntil {xs : List α} (more : xs ≠ []) :
    segments delim xs = (readUntil delim xs).1 :: segments delim (readUntil delim xs).2 := by
  induction xs with
  | nil => exact absurd rfl more
  | cons b rest ih =>
    by_cases here : b = delim
    · simp [segments, readUntil, here]
    · simp only [segments, readUntil, here, if_false]
      cases rest with
      | nil => rfl
      | cons c rest => rw [ih (List.cons_ne_nil c rest)]

theorem segments_flatten (delim : α) (xs : List α) : (segments delim xs).flatten = xs := by
  induction xs with
  | nil => rfl
  | cons b rest ih =>
    simp only [segments]
    split
    · simp [ih]
    · cases read : segments delim rest with
      | nil =>
        rw [read] at ih
        simp [← ih]
      | cons segment later =>
        rw [read] at ih
        simp [← ih]

theorem segments_eq_nil_iff {xs : List α} : segments delim xs = [] ↔ xs = [] := by
  constructor
  · intro none
    by_contra more
    rw [segments_readUntil more] at none
    cases none
  · rintro rfl
    rfl

theorem segments_of_not_mem {xs : List α} (more : xs ≠ []) (absent : delim ∉ xs) :
    segments delim xs = [xs] := by
  induction xs with
  | nil => exact absurd rfl more
  | cons b rest ih =>
    have here : b ≠ delim := fun equal => absent (by simp [equal])
    simp only [segments, here, if_false]
    cases rest with
    | nil => rfl
    | cons c rest => rw [ih (List.cons_ne_nil c rest) fun later => absent (.tail _ later)]

theorem segments_line {line : List α} (flat : delim ∉ line) :
    segments delim (line ++ [delim]) = [line ++ [delim]] := by
  induction line with
  | nil => simp [segments]
  | cons b rest ih =>
    have here : b ≠ delim := fun equal => flat (by simp [equal])
    simp [segments, here, ih fun later => flat (.tail _ later)]

/-- A part without a delimiter joins the first piece that follows it. -/
theorem segments_prepend {front : List α} (flat : delim ∉ front) {xs : List α} (more : xs ≠ []) :
    ∃ first rest, segments delim xs = first :: rest ∧
      segments delim (front ++ xs) = (front ++ first) :: rest := by
  induction front with
  | nil =>
    cases read : segments delim xs with
    | nil => exact absurd (segments_eq_nil_iff.mp read) more
    | cons first rest => exact ⟨first, rest, rfl, read⟩
  | cons b front ih =>
    have here : b ≠ delim := fun equal => flat (by simp [equal])
    obtain ⟨first, rest, read, joined⟩ := ih fun later => flat (.tail _ later)
    exact ⟨first, rest, read, by simp [segments, here, joined]⟩

omit [DecidableEq α] in
theorem Terminated.tail {b : α} {rest : List α} (ended : Terminated delim (b :: rest)) :
    Terminated delim rest := by
  obtain empty | ⟨front, split⟩ := ended
  · cases empty
  · cases front with
    | nil => exact .inl (List.cons.inj split).2
    | cons c front => exact .inr ⟨front, (List.cons.inj split).2⟩

/-- Reading past a terminated prefix starts over. -/
theorem segments_append {before : List α} (after : List α) (ended : Terminated delim before) :
    segments delim (before ++ after) = segments delim before ++ segments delim after := by
  induction before with
  | nil => rfl
  | cons b rest ih =>
    by_cases here : b = delim
    · simp [segments, here, ih ended.tail]
    · obtain empty | ⟨front, split⟩ := ended
      · cases empty
      cases front with
      | nil => exact absurd (List.cons.inj split).1 here
      | cons c front =>
        have restSplit := (List.cons.inj split).2
        have more : segments delim rest ≠ [] := by
          rw [ne_eq, segments_eq_nil_iff, restSplit]
          simp
        simp only [List.cons_append, segments, here, if_false, ih (.inr ⟨front, restSplit⟩)]
        cases read : segments delim rest with
        | nil => exact absurd read more
        | cons segment later => rfl

theorem length_segments {xs : List α} (ended : Terminated delim xs) : (segments delim xs).length = xs.count delim := by
  induction xs with
  | nil => rfl
  | cons b rest ih =>
    by_cases here : b = delim
    · subst here
      simp [segments, ih ended.tail]
    · have more : segments delim rest ≠ [] := by
        rw [ne_eq, segments_eq_nil_iff]
        rintro rfl
        obtain empty | ⟨front, split⟩ := ended
        · cases empty
        · cases front with
          | nil => exact here (List.cons.inj split).1
          | cons c front => simp at split
      simp only [segments, if_neg here, List.count_cons_of_ne here, ← ih ended.tail]
      cases read : segments delim rest with
      | nil => exact absurd read more
      | cons segment later => rfl

theorem readUntil_append (xs : List α) : (readUntil delim xs).1 ++ (readUntil delim xs).2 = xs := by
  induction xs with
  | nil => rfl
  | cons b rest ih =>
    by_cases here : b = delim
    · simp [readUntil, here]
    · simp [readUntil, here, ih]

theorem readUntil_ends {xs : List α} (more : (readUntil delim xs).2 ≠ []) :
    ∃ front, (readUntil delim xs).1 = front ++ [delim] := by
  induction xs with
  | nil => exact absurd rfl more
  | cons b rest ih =>
    by_cases here : b = delim
    · exact ⟨[], by simp [readUntil, here]⟩
    · simp only [readUntil, here, if_false] at more ⊢
      obtain ⟨front, read⟩ := ih more
      exact ⟨b :: front, by simp [read]⟩

theorem mem_segments {xs segment : List α} (member : segment ∈ segments delim xs) :
    segment <+: xs ∨ delim :: segment <:+: xs := by
  -- the induction follows the reads, each of which takes something
  induction size : xs.length using Nat.strong_induction_on generalizing xs with
  | _ n ih =>
    subst size
    by_cases empty : xs = []
    · rw [segments_eq_nil_iff.mpr empty] at member
      cases member
    have whole : (readUntil delim xs).1 ++ (readUntil delim xs).2 = xs := readUntil_append xs
    rw [segments_readUntil empty] at member
    rcases List.mem_cons.mp member with rfl | later
    · exact .inl ⟨_, whole⟩
    have more : (readUntil delim xs).2 ≠ [] := by
      intro none
      rw [none] at later
      cases later
    obtain ⟨front, ended⟩ := readUntil_ends more
    have shorter : (readUntil delim xs).2.length < xs.length := by
      rw [← congrArg List.length whole, ended]
      simp only [List.length_append, List.length_cons, List.length_nil]
      omega
    have behind : delim :: (readUntil delim xs).2 <:+: xs := by
      have split : front ++ delim :: (readUntil delim xs).2 = xs := by
        rw [ended, List.append_assoc] at whole
        exact whole
      exact ⟨front, [], by rw [List.append_nil, split]⟩
    rcases ih _ shorter later rfl with opens | inside
    · exact .inr ((List.cons_prefix_cons.mpr ⟨rfl, opens⟩).isInfix.trans behind)
    · exact .inr (inside.trans ((List.suffix_cons _ _).isInfix.trans behind))

/-! ### The split at the last delimiter -/

variable (delim)

theorem terminatedPrefix_append_tornTail (xs : List α) :
    terminatedPrefix delim xs ++ tornTail delim xs = xs := by
  simp [terminatedPrefix, tornTail, List.rdropWhile, List.rtakeWhile, ← List.reverse_append]

theorem not_mem_tornTail (xs : List α) : delim ∉ tornTail delim xs := by
  intro member
  have passed := List.mem_rtakeWhile_imp member
  simp at passed

theorem terminated_terminatedPrefix (xs : List α) :
    Terminated delim (terminatedPrefix delim xs) := by
  by_cases empty : terminatedPrefix delim xs = []
  · exact .inl empty
  · have last := List.rdropWhile_last_not (fun b => decide (b ≠ delim)) xs empty
    have equal : (terminatedPrefix delim xs).getLast empty = delim := by
      by_contra other
      exact last (decide_eq_true other)
    have rejoined := List.dropLast_append_getLast empty
    rw [equal] at rejoined
    exact .inr ⟨_, rejoined.symm⟩

/-- The split is the only one into a terminated part and a part without a delimiter. -/
theorem terminatedPrefix_eq {before after : List α} (ended : Terminated delim before)
    (absent : delim ∉ after) : terminatedPrefix delim (before ++ after) = before := by
  have passes : ∀ b ∈ after.reverse, decide (b ≠ delim) = true := by
    intro b member
    have present := List.mem_reverse.mp member
    simpa using fun equal : b = delim => absent (equal ▸ present)
  rw [terminatedPrefix, List.rdropWhile, List.reverse_append, List.dropWhile_append_of_pos passes]
  obtain rfl | ⟨front, rfl⟩ := ended
  · rfl
  · simp

theorem tornTail_eq {before after : List α} (ended : Terminated delim before)
    (absent : delim ∉ after) : tornTail delim (before ++ after) = after := by
  have split := terminatedPrefix_append_tornTail delim (before ++ after)
  rw [terminatedPrefix_eq delim ended absent] at split
  exact List.append_cancel_left split

theorem prefix_terminatedPrefix {xs front : List α} (ended : Terminated delim front)
    (starts : front <+: xs) : front <+: terminatedPrefix delim xs := by
  have whole : terminatedPrefix delim xs <+: xs :=
    ⟨tornTail delim xs, terminatedPrefix_append_tornTail delim xs⟩
  rcases Nat.le_total front.length (terminatedPrefix delim xs).length with within | past
  · exact List.prefix_of_prefix_length_le starts whole within
  obtain ⟨more, rfl⟩ := List.prefix_of_prefix_length_le whole starts past
  -- what goes past it is of the tail, which holds no delimiter
  have inTail : more <+: tornTail delim xs := by
    rw [← List.prefix_append_right_inj (terminatedPrefix delim xs), terminatedPrefix_append_tornTail]
    exact starts
  by_cases nothing : more = []
  · simp [nothing]
  · rcases ended with empty | ⟨rest, same⟩
    · exact absurd (List.append_eq_nil_iff.mp empty).2 nothing
    · have last : more.getLast? = some delim := by
        rw [← List.getLast?_append_of_ne_nil (terminatedPrefix delim xs) nothing, same,
          List.getLast?_concat]
      exact absurd (inTail.subset (List.mem_of_getLast? last)) (not_mem_tornTail delim xs)

/-- The segments of a sequence: those of its terminated prefix, then its torn tail if any. -/
theorem segments_split (xs : List α) :
    segments delim xs = segments delim (terminatedPrefix delim xs) ++
      if tornTail delim xs = [] then [] else [tornTail delim xs] := by
  have whole := terminatedPrefix_append_tornTail delim xs
  have read := segments_append (tornTail delim xs) (terminated_terminatedPrefix delim xs)
  rw [whole] at read
  rw [read]
  split
  next empty => rw [empty]; rfl
  next more => rw [segments_of_not_mem more (not_mem_tornTail delim xs)]

end Library.Segments
