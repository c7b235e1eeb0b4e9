import Mathlib.Algebra.Order.Ring.Int

/-!
# Sorting by floating-point numbers

Single-precision numbers as bit patterns, whose comparison leaves every pair with a NaN open, and a
comparison that takes such pairs for equal and goes on to a second key. On a list it is a total
preorder exactly where no NaN stands, by the second key, between two numbers in the wrong order.
-/
namespace Library

/-! ### Single precision -/

/-- `f32`, by its bits. -/
abbrev Binary32 := BitVec 32

namespace Binary32

def exponent (x : Binary32) : Nat := (x.extractLsb' 23 8).toNat

def fraction (x : Binary32) : Nat := (x.extractLsb' 0 23).toNat

/-- In units of the smallest positive number; an infinity is greater than all finite ones. -/
def magnitude (x : Binary32) : Nat :=
  if x.exponent = 0 then x.fraction else (2 ^ 23 + x.fraction) * 2 ^ (x.exponent - 1)

def isNan (x : Binary32) : Bool := x.exponent == 255 && x.fraction != 0

/-- A NaN has no value; both zeros have the value zero. -/
def value (x : Binary32) : Option Int :=
  if x.isNan then none else some (if x.msb then -(x.magnitude : Int) else x.magnitude)

def partialCmp (x y : Binary32) : Option Ordering :=
  x.value.bind fun a => y.value.map fun b => compare a b

def lt (x y : Binary32) : Bool := x.partialCmp y == some .lt

def clamp (low high x : Binary32) : Binary32 :=
  let x := if x.lt low then low else x
  if high.lt x then high else x

def zero : Binary32 := 0x00000000

def half : Binary32 := 0x3f000000

def one : Binary32 := 0x3f800000

def nan : Binary32 := 0x7fc00000

end Binary32

/-! ### Total preorders on a list -/

section Preorder

variable {α β : Type} {cmp : α → α → Ordering} {l : List α}

structure TotalPreorderOn (cmp : α → α → Ordering) (l : List α) : Prop where
  oriented : ∀ a ∈ l, ∀ b ∈ l, cmp b a = (cmp a b).swap
  trans : ∀ a ∈ l, ∀ b ∈ l, ∀ c ∈ l, (cmp a b).isLE → (cmp b c).isLE → (cmp a c).isLE

theorem totalPreorderOn_flip : TotalPreorderOn (fun a b => cmp b a) l ↔ TotalPreorderOn cmp l := by
  constructor
  · rintro ⟨oriented, trans⟩
    exact ⟨fun a here b there => oriented b there a here,
      fun a first b second c third below above => trans c third b second a first above below⟩
  · rintro ⟨oriented, trans⟩
    exact ⟨fun a here b there => oriented b there a here,
      fun a first b second c third below above => trans c third b second a first above below⟩

/-- `slice::sort_by` where its documentation says what it does: it is stable and does not panic if the
comparison is a total order. `none` is the panic. -/
structure SliceSort where
  sortBy {α : Type} : (α → α → Ordering) → List α → Option (List α)
  settles {α : Type} {cmp : α → α → Ordering} {l : List α} (ordered : TotalPreorderOn cmp l) :
    sortBy cmp l = some (l.mergeSort fun a b => cmp a b != .gt)

theorem bne_gt_eq_isLE (o : Ordering) : (o != .gt) = o.isLE := by
  cases o <;> rfl

/-- The elements of the list are all that the order has to hold for. -/
theorem TotalPreorderOn.pairwise_mergeSort (ordered : TotalPreorderOn cmp l) :
    (l.mergeSort fun a b => cmp a b != .gt).Pairwise fun a b => (cmp a b).isLE := by
  let inside : { a // a ∈ l } → { a // a ∈ l } → Bool := fun a b => cmp a.val b.val != .gt
  have mapped : (l.attach.mergeSort inside).map Subtype.val = l.mergeSort fun a b => cmp a b != .gt := by
    rw [List.map_mergeSort (s := fun a b => cmp a b != .gt) fun _ _ _ _ => rfl, List.attach_map_subtype_val]
  have sorted : (l.attach.mergeSort inside).Pairwise fun a b => inside a b = true := by
    refine List.pairwise_mergeSort (fun a b c below above => ?_) (fun a b => ?_) _
    · simp only [inside, bne_gt_eq_isLE] at below above ⊢
      exact ordered.trans a a.2 b b.2 c c.2 below above
    · simp only [inside, bne_gt_eq_isLE, ordered.oriented a a.2 b b.2]
      cases cmp a.val b.val <;> rfl
  rw [← mapped, List.pairwise_map]
  exact sorted.imp fun below => bne_gt_eq_isLE _ ▸ below

end Preorder

/-! ### Open pairs taken for equal -/

section Patched

variable {α κ τ : Type} [Ord κ] [Ord τ] {rank : α → Option κ} {tie : α → τ} {l : List α} {a b c : α}

/-- By rank and then by tie; where an element has no rank, by tie. -/
def patched (rank : α → Option κ) (tie : α → τ) (a b : α) : Ordering :=
  (((rank a).bind fun p => (rank b).map fun q => compare p q).getD .eq).then (compare (tie a) (tie b))

/-- The elements of lower and of higher rank stand the other way round about one without a rank. -/
structure Clash (rank : α → Option κ) (tie : α → τ) (low high mid : α) : Prop where
  unranked : rank mid = none
  ranks : ∃ p q, rank low = some p ∧ rank high = some q ∧ compare p q = .lt
  above : (compare (tie high) (tie mid)).isLE
  below : (compare (tie mid) (tie low)).isLE

theorem patched_of_unranked_left (unranked : rank a = none) :
    patched rank tie a b = compare (tie a) (tie b) := by
  simp [patched, unranked]

theorem patched_of_unranked_right (unranked : rank b = none) :
    patched rank tie a b = compare (tie a) (tie b) := by
  cases here : rank a <;> simp [patched, unranked, here]

theorem patched_of_ranked {p q : κ} (left : rank a = some p) (right : rank b = some q) :
    patched rank tie a b = (compare p q).then (compare (tie a) (tie b)) := by
  simp [patched, left, right]

variable [Std.TransOrd κ] [Std.TransOrd τ]

theorem patched_swap (a b : α) : patched rank tie b a = (patched rank tie a b).swap := by
  have ties : compare (tie b) (tie a) = (compare (tie a) (tie b)).swap := Std.OrientedOrd.eq_swap
  cases left : rank a with
  | none => rw [patched_of_unranked_right left, patched_of_unranked_left left, ties]
  | some p =>
    cases right : rank b with
    | none => rw [patched_of_unranked_left right, patched_of_unranked_right right, ties]
    | some q =>
      have ranks : compare q p = (compare p q).swap := Std.OrientedOrd.eq_swap
      rw [patched_of_ranked left right, patched_of_ranked right left, Ordering.swap_then, ties, ranks]

/-- Three ranked elements are compared as the pairs of their keys. -/
theorem lexicographic_trans {p q r : κ} {s t u : τ} (below : ((compare p q).then (compare s t)).isLE)
    (above : ((compare q r).then (compare t u)).isLE) : ((compare p r).then (compare s u)).isLE := by
  rw [Ordering.isLE_then_iff_or] at below above ⊢
  rcases below with less | ⟨same, tied⟩
  · left
    rcases above with less' | ⟨same', -⟩
    · exact Std.TransCmp.lt_trans less less'
    · exact Std.TransCmp.lt_of_lt_of_eq less same'
  · rcases above with less' | ⟨same', tied'⟩
    · exact .inl (Std.TransCmp.lt_of_eq_of_lt same less')
    · exact .inr ⟨Std.TransCmp.eq_trans same same', Std.TransOrd.isLE_trans tied tied'⟩

/-- Without a clash about it, an element without a rank can stand between two others. -/
theorem patched_trans (clear : ∀ low ∈ [a, b, c], ∀ high ∈ [a, b, c], ∀ mid ∈ [a, b, c],
    ¬ Clash rank tie low high mid) (below : (patched rank tie a b).isLE)
    (above : (patched rank tie b c).isLE) : (patched rank tie a c).isLE := by
  cases first : rank a with
  | none =>
    rw [patched_of_unranked_left first] at below ⊢
    cases second : rank b with
    | none =>
      rw [patched_of_unranked_left second] at above
      exact Std.TransOrd.isLE_trans below above
    | some q =>
      cases third : rank c with
      | none =>
        rw [patched_of_unranked_right third] at above
        exact Std.TransOrd.isLE_trans below above
      | some r =>
        rw [patched_of_ranked second third, Ordering.isLE_then_iff_or] at above
        rcases above with less | ⟨-, tied⟩
        · by_contra apart
          have behind := Std.OrientedCmp.lt_of_not_isLE apart
          exact clear b (by simp) c (by simp) a (by simp)
            ⟨first, ⟨q, r, second, third, less⟩, Ordering.isLE_of_eq_lt behind, below⟩
        · exact Std.TransOrd.isLE_trans below tied
  | some p =>
    cases second : rank b with
    | none =>
      rw [patched_of_unranked_right second] at below
      rw [patched_of_unranked_left second] at above
      have tied := Std.TransOrd.isLE_trans below above
      cases third : rank c with
      | none => rwa [patched_of_unranked_right third]
      | some r =>
        rw [patched_of_ranked first third, Ordering.isLE_then_iff_and]
        cases order : compare p r with
        | lt => exact ⟨rfl, .inl rfl⟩
        | eq => exact ⟨rfl, .inr tied⟩
        | gt =>
          exact absurd ⟨second, ⟨r, p, third, first, Std.OrientedCmp.lt_of_gt order⟩, below, above⟩
            (clear c (by simp) a (by simp) b (by simp))
    | some q =>
      cases third : rank c with
      | none =>
        rw [patched_of_unranked_right third] at above ⊢
        rw [patched_of_ranked first second, Ordering.isLE_then_iff_or] at below
        rcases below with less | ⟨-, tied⟩
        · by_contra apart
          have behind := Std.OrientedCmp.lt_of_not_isLE apart
          exact clear a (by simp) b (by simp) c (by simp)
            ⟨third, ⟨p, q, first, second, less⟩, above, Ordering.isLE_of_eq_lt behind⟩
        · exact Std.TransOrd.isLE_trans tied above
      | some r =>
        rw [patched_of_ranked first second] at below
        rw [patched_of_ranked second third] at above
        rw [patched_of_ranked first third]
        exact lexicographic_trans below above

/-- The comparison is a total preorder of the list exactly where there is no clash in it. -/
theorem totalPreorderOn_patched_iff : TotalPreorderOn (patched rank tie) l ↔
    ∀ low ∈ l, ∀ high ∈ l, ∀ mid ∈ l, ¬ Clash rank tie low high mid := by
  constructor
  · rintro ⟨-, trans⟩ low here high there mid between ⟨missing, ⟨p, q, left, right, less⟩, above, below⟩
    rw [← patched_of_unranked_right missing] at above
    rw [← patched_of_unranked_left missing] at below
    have reversed := trans high there mid between low here above below
    rw [patched_of_ranked right left, Std.OrientedCmp.gt_of_lt less] at reversed
    cases reversed
  · intro clear
    refine ⟨fun a _ b _ => patched_swap a b, fun a first b second c third => patched_trans ?_⟩
    have listed : ∀ d ∈ [a, b, c], d ∈ l := by simp [first, second, third]
    exact fun low here high there mid between =>
      clear low (listed low here) high (listed high there) mid (listed mid between)

end Patched

end Library
