import Mathlib.Algebra.Order.Ring.Int
import Mathlib.Data.List.DropRight
import Mathlib.Data.List.Sort

/-!
# Windows of samples

A ring holds the last values written, each one overwriting the oldest once the slots are full. The
value of rank `r` among finitely many is read off a sorted list and does not depend on their order.
And instants admitted while fewer than `max` earlier ones are within a window: no stretch shorter
than the window holds more.
-/
namespace Library.Ring

variable {α : Type} {capacity next : Nat} {slots seen : List α} {value : α}

def write (capacity : Nat) (slots : List α) (next : Nat) (value : α) : List α × Nat :=
  if slots.length < capacity then (slots ++ [value], next)
  else (slots.set next value, (next + 1) % capacity)

/-- The last values of a list, as many as fit. -/
def window (capacity : Nat) (seen : List α) : List α := seen.rtake capacity

@[simp] theorem window_nil : window capacity ([] : List α) = [] := List.rtake_nil _

theorem window_of_length_le (short : seen.length ≤ capacity) : window capacity seen = seen := by
  simp [window, List.rtake, short]

theorem length_window : (window capacity seen).length = min seen.length capacity := by
  simp only [window, List.rtake, List.length_drop]
  omega

theorem window_concat (full : capacity ≤ seen.length) (pos : 0 < capacity) :
    window capacity (seen ++ [value]) = (window capacity seen).tail ++ [value] := by
  obtain ⟨rest, rfl⟩ : ∃ rest, capacity = rest + 1 := ⟨capacity - 1, by omega⟩
  have shifted : seen.length - rest = seen.length - (rest + 1) + 1 := by omega
  rw [window, List.rtake_concat_succ, window, List.rtake, List.rtake, List.tail_drop, shifted]

/-- What a ring holds after all the values of a list were written. -/
structure Holds (capacity : Nat) (seen slots : List α) (next : Nat) : Prop where
  parts : ∃ newer older, slots = newer ++ older ∧ newer.length = next ∧ window capacity seen = older ++ newer
  filling : seen.length < capacity → next = 0
  behind : next < capacity

theorem Holds.empty (pos : 0 < capacity) : Holds capacity ([] : List α) [] 0 where
  parts := ⟨[], [], rfl, rfl, window_nil⟩
  filling _ := rfl
  behind := pos

theorem Holds.perm (held : Holds capacity seen slots next) : slots.Perm (window capacity seen) := by
  obtain ⟨newer, older, rfl, _, recent⟩ := held.parts
  rw [recent]
  exact List.perm_append_comm

theorem Holds.length (held : Holds capacity seen slots next) : slots.length = min seen.length capacity :=
  held.perm.length_eq.trans length_window

theorem Holds.write (held : Holds capacity seen slots next) :
    Holds capacity (seen ++ [value]) (write capacity slots next value).1
      (write capacity slots next value).2 := by
  have length := held.length
  have behind := held.behind
  obtain ⟨newer, older, rfl, here, recent⟩ := held.parts
  by_cases room : (newer ++ older).length < capacity
  · -- nothing was evicted yet, so that the next slot is still the first
    have few : seen.length < capacity := by omega
    have zero := held.filling few
    obtain rfl : newer = [] := List.eq_nil_of_length_eq_zero (here.trans zero)
    have whole : seen = older := by
      simpa [window_of_length_le (show seen.length ≤ capacity by omega)] using recent
    subst whole zero
    simp only [Ring.write, if_pos room]
    refine ⟨⟨[], seen ++ [value], rfl, rfl, ?_⟩, fun _ => rfl, behind⟩
    rw [window_of_length_le (by simp; omega), List.append_nil]
  · have full : capacity ≤ seen.length := by omega
    have shape := @window_concat _ capacity seen value full (by omega)
    simp only [Ring.write, if_neg room]
    have room : newer.length + older.length = capacity := by
      simp only [List.length_append] at length room
      omega
    -- the next slot holds the oldest value
    obtain ⟨oldest, rest, rfl⟩ : ∃ oldest rest, older = oldest :: rest := by
      cases older with
      | nil =>
        simp only [List.length_nil] at room
        omega
      | cons oldest rest => exact ⟨oldest, rest, rfl⟩
    have replaced : (newer ++ oldest :: rest).set next value = newer ++ value :: rest := by
      rw [← here, List.set_append_right _ _ (Nat.le_refl _)]
      simp
    rw [recent] at shape
    rw [replaced]
    by_cases wraps : next + 1 < capacity
    · rw [Nat.mod_eq_of_lt wraps]
      refine ⟨⟨newer ++ [value], rest, by simp, by simp [here], by simpa using shape⟩, ?_, wraps⟩
      simp only [List.length_append, List.length_singleton]
      omega
    · have last : next + 1 = capacity := by omega
      have none : rest = [] := by
        simp only [List.length_cons] at room
        exact List.eq_nil_of_length_eq_zero (by omega)
      subst none
      rw [last, Nat.mod_self]
      refine ⟨⟨[], newer ++ [value], rfl, rfl, by simpa using shape⟩, fun _ => rfl, by omega⟩

end Library.Ring

namespace Library

variable {α : Type} [LinearOrder α] {values others : List α} {rank : Nat} {value : α}

structure IsRanked (values : List α) (rank : Nat) (value : α) : Prop where
  mem : value ∈ values
  below : values.countP (· < value) < rank
  upTo : rank ≤ values.countP (· ≤ value)

theorem IsRanked.perm (ranked : IsRanked values rank value) (same : values.Perm others) :
    IsRanked others rank value where
  mem := same.mem_iff.mp ranked.mem
  below := same.countP_eq _ ▸ ranked.below
  upTo := same.countP_eq _ ▸ ranked.upTo

theorem IsRanked.of_sorted (sorted : values.Pairwise (· ≤ ·)) {i : Nat} (found : values[i]? = some value) :
    IsRanked values (i + 1) value := by
  induction values generalizing i with
  | nil => simp at found
  | cons first rest ih =>
    obtain ⟨least, sorted⟩ := List.pairwise_cons.mp sorted
    cases i with
    | zero =>
      obtain rfl : first = value := by simpa using found
      refine ⟨List.mem_cons_self, ?_, ?_⟩
      · -- nothing lies below the first value
        have none : (first :: rest).countP (· < first) = 0 := by
          simp only [List.countP_eq_zero, List.mem_cons, decide_eq_true_eq, not_lt]
          rintro x (rfl | behind)
          · exact le_refl _
          · exact least x behind
        omega
      · simp
    | succ i =>
      have inside := ih sorted (i := i) (by simpa using found)
      have low := inside.below
      have high := inside.upTo
      refine ⟨List.mem_cons_of_mem _ inside.mem, ?_, ?_⟩
      · rw [List.countP_cons]
        split <;> omega
      · rw [List.countP_cons, if_pos (by simpa using least value inside.mem)]
        omega

end Library

namespace Library.SlidingWindow

variable {window max now later t : Nat} {instants older newer : List Nat}

def live (window now : Nat) (instants : List Nat) : List Nat :=
  instants.filter fun admitted => now < admitted + window

@[simp] theorem live_append : live window now (older ++ newer) = live window now older ++ live window now newer :=
  List.filter_append ..

theorem mem_live : t ∈ live window now instants ↔ t ∈ instants ∧ now < t + window := by
  simp [live]

theorem live_live (ordered : now ≤ later) : live window later (live window now instants) = live window later instants := by
  unfold live
  rw [List.filter_filter]
  apply List.filter_congr
  intro admitted _
  by_cases lasting : later < admitted + window
  · have earlier : now < admitted + window := by omega
    simp [lasting, earlier]
  · simp [lasting]

/-- Dropping expired instants from the front leaves the live ones, as the older an instant
is the sooner it expires. -/
theorem dropWhile_eq_live (sorted : instants.Pairwise (· ≤ ·)) (past : ∀ admitted ∈ instants, admitted ≤ now) :
    instants.dropWhile (fun admitted => decide (window ≤ now - admitted)) = live window now instants := by
  induction instants with
  | nil => rfl
  | cons first rest ih =>
    have bound := past first List.mem_cons_self
    have tail := List.pairwise_cons.mp sorted
    by_cases expired : window ≤ now - first
    · have dead : ¬ now < first + window := by omega
      have shorter := ih tail.2 fun admitted member => past admitted (List.mem_cons_of_mem _ member)
      simpa [live, expired, dead] using shorter
    · -- the front is live, and so is all that is behind it
      have lasting : ∀ admitted ∈ first :: rest, now < admitted + window := by
        intro admitted member
        rcases List.mem_cons.mp member with rfl | behind
        · omega
        · have := tail.1 admitted behind
          omega
      have whole : live window now (first :: rest) = first :: rest :=
        List.filter_eq_self.mpr fun admitted member => by simpa using lasting admitted member
      rw [whole]
      simp [expired]

/-- The lists of instants in which each one found fewer than `max` live. -/
inductive Admissions (max window : Nat) : List Nat → Prop
  | none : Admissions max window []
  | next {instants : List Nat} {now : Nat} (before : Admissions max window instants)
      (past : ∀ admitted ∈ instants, admitted ≤ now) (room : (live window now instants).length < max) :
      Admissions max window (instants ++ [now])

/-- At most `max` admissions lie in a stretch of time none of whose instants comes a window
after another. -/
theorem Admissions.count_le {stretch : Nat → Bool} (admissions : Admissions max window instants)
    (short : ∀ a b, stretch a = true → stretch b = true → b < a + window) :
    (instants.filter stretch).length ≤ max := by
  induction admissions with
  | none => simp
  | @next instants now before past room ih =>
    cases inside : stretch now with
    | false => simpa [inside] using ih
    | true =>
      -- what shares a stretch with `now` is live at `now`
      have shared : (instants.filter stretch).Sublist (live window now instants) := by
        apply List.monotone_filter_right
        intro admitted within
        simpa using short admitted now within inside
      have fewer := shared.length_le
      simp only [List.filter_append, List.length_append, List.filter_cons_of_pos inside, List.filter_nil,
        List.length_singleton]
      omega

end Library.SlidingWindow
