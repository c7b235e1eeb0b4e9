import Mathlib.Data.List.Pairwise

/-!
# Sweeps over a list

A sweep goes over a list from left to right and takes out a stretch wherever one starts. Where a stretch runs
to the next element of a kind, it is a pass that knows of one thing only, whether a stretch is open.
-/
namespace Library.Sweep

variable {β : Type}

/-- Where a stretch starts, `finish` gives what stands behind it, if it ends at all. -/
def sweep (starts : β → Bool) (finish : List β → Option (List β)) : List β → List β
  | [] => []
  | b :: list =>
    if starts b then
      match finish list with
      | some rest =>
        if rest.length ≤ list.length then sweep starts finish rest else b :: sweep starts finish list
      | none => b :: sweep starts finish list
    else b :: sweep starts finish list
  termination_by list => list.length

/-- What stands behind the first element of a kind. -/
def behind (ends : β → Bool) : List β → Option (List β)
  | [] => none
  | b :: list => if ends b then some list else behind ends list

/-- One list comes from another by taking out stretches of a kind. -/
inductive Shrinks (gone : List β → Prop) : List β → List β → Prop
  | refl (list : List β) : Shrinks gone list list
  | step {front middle back result : List β} (out : gone middle)
    (more : Shrinks gone (front ++ back) result) :
    Shrinks gone (front ++ (middle ++ back)) result

variable {gone : List β → Prop} {starts ends : β → Bool} {finish : List β → Option (List β)}
  {list result : List β}

theorem Shrinks.cons (b : β) (shrinks : Shrinks gone list result) : Shrinks gone (b :: list)
    (b :: result) := by
  induction shrinks with
  | refl list => exact .refl _
  | @step front middle back result out _ ih =>
    rw [← List.cons_append]
    exact .step out ih

theorem Shrinks.trans {final : List β} (first : Shrinks gone list result)
    (second : Shrinks gone result final) :
    Shrinks gone list final := by
  induction first with
  | refl => exact second
  | step out _ ih => exact .step out (ih second)

theorem Shrinks.sublist (shrinks : Shrinks gone list result) : result.Sublist list := by
  induction shrinks with
  | refl list => exact List.Sublist.refl list
  | @step front middle back result _ _ ih =>
    exact ih.trans (List.Sublist.append_left (List.sublist_append_right middle back) front)

theorem Shrinks.mem_of_stays {b : β} (stays : ∀ middle, gone middle → b ∉ middle)
    (shrinks : Shrinks gone list result) (member : b ∈ list) : b ∈ result := by
  induction shrinks with
  | refl => exact member
  | @step front middle back result out _ ih =>
    apply ih
    rcases List.mem_append.mp member with inFront | inside
    · exact List.mem_append_left back inFront
    · rcases List.mem_append.mp inside with inMiddle | inBack
      · exact absurd inMiddle (stays middle out)
      · exact List.mem_append_right front inBack

theorem sweep_stays {b : β} (stays : starts b = false) : sweep starts finish
    (b :: list) = b :: sweep starts finish list := by
  rw [sweep, stays]
  rfl

theorem sweep_none {b : β} (none : finish list = Option.none) :
    sweep starts finish (b :: list) = b :: sweep starts finish list := by
  rw [sweep, none]
  exact ite_self _

theorem sweep_some {b : β} {rest : List β} (start : starts b = true) (found : finish list = some rest)
    (shorter : rest.length ≤ list.length) : sweep starts finish (b :: list) = sweep starts finish rest := by
  rw [sweep, if_pos start, found]
  exact if_pos shorter

theorem sweep_shrinks (stretch : ∀ {b list rest}, starts b = true → finish list = some rest →
      ∃ middle, list = middle ++ rest ∧ gone (b :: middle))
    (list : List β) : Shrinks gone list (sweep starts finish list) := by
  induction list using sweep.induct starts finish with
  | case1 =>
    rw [sweep]
    exact .refl []
  | case2 b list start rest found shorter ih =>
    rw [sweep_some start found shorter]
    obtain ⟨middle, rfl, out⟩ := stretch start found
    change Shrinks gone ([] ++ ((b :: middle) ++ rest)) _
    exact .step out ih
  | case3 b list start rest found longer =>
    obtain ⟨middle, rfl, -⟩ := stretch start found
    simp at longer
  | case4 b list start none ih =>
    rw [sweep_none none]
    exact ih.cons b
  | case5 b list stays ih =>
    rw [sweep_stays (Bool.eq_false_iff.mpr stays)]
    exact ih.cons b

theorem behind_eq_none : behind ends list = none ↔ ∀ b ∈ list, ends b = false := by
  induction list with
  | nil => simp [behind]
  | cons b list ih => cases ended : ends b <;> simp [behind, ended, ih]

theorem behind_eq_some {rest : List β} (found : behind ends list = some rest) :
    ∃ middle c, list = middle ++ c :: rest ∧ ends c = true ∧ ∀ b ∈ middle, ends b = false := by
  induction list with
  | nil => cases found
  | cons b list ih =>
    rw [behind] at found
    split at found
    next ended =>
      cases found
      exact ⟨[], b, rfl, ended, by simp⟩
    next goes =>
      obtain ⟨middle, c, rfl, ended, before⟩ := ih found
      refine ⟨b :: middle, c, rfl, ended, ?_⟩
      exact List.forall_mem_cons.mpr ⟨Bool.eq_false_iff.mpr goes, before⟩

/-- What a sweep leaves stands in the order in which it stood. -/
theorem sweep_sublist (shorter : ∀ {list rest}, finish list = some rest → rest <:+ list) (list : List β) :
    (sweep starts finish list).Sublist list := by
  have shrinks : Shrinks (fun _ => True) list (sweep starts finish list) := by
    apply sweep_shrinks
    intro b list rest _ found
    obtain ⟨middle, rfl⟩ := shorter found
    exact ⟨middle, rfl, trivial⟩
  exact shrinks.sublist

theorem behind_suffix {rest : List β} (found : behind ends list = some rest) : rest <:+ list := by
  obtain ⟨middle, c, rfl, -⟩ := behind_eq_some found
  exact ⟨middle ++ [c], by simp⟩

/-! ### What is left to take -/

/-- Behind no start of a stretch there is an end. -/
def Quiet (starts ends : β → Bool) (list : List β) : Prop :=
  list.Pairwise fun a b => starts a = true → ends b = false

theorem quiet_sweep (list : List β) : Quiet starts ends (sweep starts (behind ends) list) := by
  induction list using sweep.induct starts (behind ends) with
  | case1 =>
    rw [sweep]
    exact List.Pairwise.nil
  | case2 b list start rest found shorter ih =>
    rw [sweep_some start found shorter]
    exact ih
  | case3 b list start rest found longer => exact absurd (behind_suffix found).length_le longer
  | case4 b list start none ih =>
    rw [sweep_none none]
    refine List.pairwise_cons.mpr ⟨fun c member _ => ?_, ih⟩
    exact behind_eq_none.mp none c ((sweep_sublist behind_suffix list).subset member)
  | case5 b list stays ih =>
    rw [sweep_stays (Bool.eq_false_iff.mpr stays)]
    exact List.pairwise_cons.mpr ⟨fun c _ start => absurd start stays, ih⟩

/-- A second sweep takes nothing. -/
theorem Quiet.sweep_eq (quiet : Quiet starts ends list) : sweep starts (behind ends) list = list := by
  induction list with
  | nil => rw [sweep]
  | cons b list ih =>
    obtain ⟨first, later⟩ := List.pairwise_cons.mp quiet
    cases start : starts b with
    | false => rw [sweep_stays start, ih later]
    | true => rw [sweep_none (behind_eq_none.mpr fun c member => first c member start), ih later]

/-! ### What is left -/

/-- What a sweep to the next element of a kind leaves, element by element, with whether a stretch is open. -/
def left (starts ends : β → Bool) : Bool → List β → List β
  | _, [] => []
  | true, b :: list => left starts ends (!ends b) list
  | false, b :: list =>
    if starts b && list.any ends then left starts ends true list else b :: left starts ends false list

/-- An open stretch goes on to the next end. -/
theorem left_open {rest : List β} (found : behind ends list = some rest) :
    left starts ends true list = left starts ends false rest := by
  induction list with
  | nil => cases found
  | cons b list ih =>
    rw [behind] at found
    split at found
    next ended =>
      cases found
      rw [left, ended]
      rfl
    next goes =>
      rw [left, Bool.eq_false_iff.mpr goes]
      exact ih found

theorem sweep_eq_left (list : List β) : sweep starts (behind ends) list = left starts ends false list := by
  induction list using sweep.induct starts (behind ends) with
  | case1 => rw [sweep, left]
  | case2 b list start rest found shorter ih =>
    obtain ⟨middle, c, rfl, ended, -⟩ := behind_eq_some found
    rw [sweep_some start found shorter, ih, left, if_pos (by simp [start, ended]), left_open found]
  | case3 b list start rest found longer => exact absurd (behind_suffix found).length_le longer
  | case4 b list start none ih =>
    have last : list.any ends = false := List.any_eq_false.mpr (by simpa using behind_eq_none.mp none)
    rw [sweep_none none, ih, left, last, Bool.and_false]
    rfl
  | case5 b list stays ih =>
    rw [sweep_stays (Bool.eq_false_iff.mpr stays), ih, left, Bool.eq_false_iff.mpr stays]
    rfl

theorem left_sublist (on : Bool) (list : List β) : (left starts ends on list).Sublist list := by
  induction list generalizing on with
  | nil => cases on <;> exact List.Sublist.refl []
  | cons b list ih =>
    cases on with
    | true => exact (ih _).cons b
    | false =>
      rw [left]
      split
      · exact (ih true).cons b
      · exact (ih false).cons_cons b

/-- The elements stand at rising places. -/
def Placed (place : β → Nat) (list : List β) : Prop := list.Pairwise fun a b => place a < place b

end Library.Sweep
