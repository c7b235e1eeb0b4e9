import Mathlib.Data.List.Perm.Basic

/-!
# Max-heap as a bag

A binary heap seen through its operations: a bag of elements that gives up a greatest one
first. `drain` is the loop that pops until nothing is left. Under a total preorder the pops come
out in descending order, and where no two elements are equivalent they depend on the bag only.
-/
namespace Library.MaxHeap

variable {α : Type} (le : α → α → Bool)

/-- A greatest element and the rest of the heap. -/
def popMax : List α → Option (α × List α)
  | [] => none
  | a :: rest =>
    match popMax rest with
    | none => some (a, [])
    | some (top, below) =>
      if le top a then some (a, top :: below) else some (top, a :: below)

variable {le}

theorem popMax_perm {heap below : List α} {top : α}
    (popped : popMax le heap = some (top, below)) : (top :: below).Perm heap := by
  induction heap generalizing top below with
  | nil => cases popped
  | cons a rest ih =>
    simp only [popMax] at popped
    split at popped
    next empty =>
      cases popped
      cases rest with
      | nil => exact .refl _
      | cons b rest =>
        simp only [popMax] at empty
        split at empty
        · cases empty
        · split at empty <;> cases empty
    next top' below' found =>
      have smaller := ih found
      split at popped
      · cases popped
        exact smaller.cons a
      · cases popped
        exact (List.Perm.swap a top below').trans (smaller.cons a)

theorem popMax_length {heap below : List α} {top : α}
    (popped : popMax le heap = some (top, below)) : heap.length = below.length + 1 := by
  simpa using (popMax_perm popped).length_eq.symm

theorem popMax_eq_none_iff {heap : List α} : popMax le heap = none ↔ heap = [] := by
  constructor
  · intro empty
    cases heap with
    | nil => rfl
    | cons a rest =>
      simp only [popMax] at empty
      split at empty
      · cases empty
      · split at empty <;> cases empty
  · rintro rfl
    rfl

variable (le)

/-- At most `n` pops in a row, and what they leave. -/
def popMany : Nat → List α → List α × List α
  | 0, heap => ([], heap)
  | n + 1, heap =>
    match popMax le heap with
    | none => ([], heap)
    | some (top, below) =>
      let (popped, left) := popMany n below
      (top :: popped, left)

def drain (heap : List α) : List α := (popMany le heap.length heap).1

variable {le}

theorem popMany_perm (n : Nat) (heap : List α) :
    ((popMany le n heap).1 ++ (popMany le n heap).2).Perm heap := by
  induction n generalizing heap with
  | zero => exact .refl _
  | succ n ih =>
    simp only [popMany]
    cases found : popMax le heap with
    | none => exact .refl _
    | some popped =>
      exact ((ih popped.2).cons popped.1).trans (popMax_perm found)

theorem popMany_all {n : Nat} {heap : List α} (enough : heap.length ≤ n) :
    (popMany le n heap).2 = [] := by
  induction n generalizing heap with
  | zero => exact List.eq_nil_of_length_eq_zero (Nat.le_zero.mp enough)
  | succ n ih =>
    simp only [popMany]
    cases found : popMax le heap with
    | none => exact popMax_eq_none_iff.mp found
    | some popped =>
      have shorter := popMax_length found
      exact ih (by omega)

/-- Draining returns every element of the heap, each as often as it was there. -/
theorem drain_perm (heap : List α) : (drain le heap).Perm heap := by
  have all : ((popMany le heap.length heap).1 ++ (popMany le heap.length heap).2).Perm heap :=
    popMany_perm heap.length heap
  rwa [popMany_all (Nat.le_refl _), List.append_nil] at all

theorem mem_drain {heap : List α} {a : α} : a ∈ drain le heap ↔ a ∈ heap :=
  (drain_perm heap).mem_iff

/-- Fewer pops give a prefix of more pops. -/
theorem popMany_eq_take {n m : Nat} {heap : List α} (enough : heap.length ≤ m) :
    (popMany le n heap).1 = (popMany le m heap).1.take n := by
  induction n generalizing heap m with
  | zero => simp [popMany]
  | succ n ih =>
    cases m with
    | zero =>
      have empty := List.eq_nil_of_length_eq_zero (Nat.le_zero.mp enough)
      subst empty
      rfl
    | succ m =>
      simp only [popMany]
      cases found : popMax le heap with
      | none => rfl
      | some popped =>
        have shorter := popMax_length found
        have same : (popMany le n popped.2).1 = (popMany le m popped.2).1.take n := ih (by omega)
        simp [same]

theorem popMany_eq_take_drain (n : Nat) (heap : List α) :
    (popMany le n heap).1 = (drain le heap).take n :=
  popMany_eq_take (Nat.le_refl _)

section Order

variable (total : ∀ a b, le a b = true ∨ le b a = true)
  (trans : ∀ a b c, le a b = true → le b c = true → le a c = true)

include total trans

theorem le_popMax {heap below : List α} {top : α} (popped : popMax le heap = some (top, below)) :
    ∀ a ∈ below, le a top = true := by
  induction heap generalizing top below with
  | nil => cases popped
  | cons a rest ih =>
    simp only [popMax] at popped
    split at popped
    next =>
      cases popped
      simp
    next top' below' found =>
      have smaller := ih found
      split at popped
      next above =>
        cases popped
        intro b listed
        rcases List.mem_cons.mp listed with rfl | listed
        · exact above
        · exact trans b top' a (smaller b listed) above
      next above =>
        cases popped
        intro b listed
        rcases List.mem_cons.mp listed with rfl | listed
        · exact (total b top).resolve_right above
        · exact smaller b listed

theorem popMany_sorted (n : Nat) (heap : List α) :
    (popMany le n heap).1.Pairwise fun a b => le b a = true := by
  induction n generalizing heap with
  | zero => exact .nil
  | succ n ih =>
    simp only [popMany]
    cases found : popMax le heap with
    | none => exact .nil
    | some popped =>
      apply List.pairwise_cons.mpr
      constructor
      · intro a listed
        apply le_popMax total trans found
        exact (popMany_perm n popped.2).mem_iff.mp (List.mem_append_left _ listed)
      · exact ih popped.2

theorem drain_congr {heap other : List α} (same : heap.Perm other)
    (antisymm : ∀ a ∈ heap, ∀ b ∈ heap, le a b = true → le b a = true → a = b) :
    drain le heap = drain le other := by
  have sorted := popMany_sorted total trans heap.length heap
  have sorted' := popMany_sorted total trans other.length other
  refine List.Perm.eq_of_pairwise ?_ sorted sorted' ?_
  · intro a b listed listed' below above
    exact antisymm a (mem_drain.mp listed) b (same.mem_iff.mpr (mem_drain.mp listed')) above below
  · exact (drain_perm heap).trans (same.trans (drain_perm other).symm)

end Order

end Library.MaxHeap
