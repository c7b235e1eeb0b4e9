import Mathlib.Algebra.Order.Ring.Int

/-!
# Counting and sifting

How many entries of a list meet a predicate, and what the entries add up to, when one of them is
replaced. A queue is sifted from the front until `n` of its elements are taken: elements to keep are put
aside, and what was not reached stays as it is. Two lists built alike, the one from
parts of the other or from lighter ones, are told apart by their weights.
-/
namespace Library.Counting

variable {α : Type} {p q : α → Bool} {l : List α} {i : Nat} {a b : α}

theorem countP_set_add (p : α → Bool) (b : α) (found : l[i]? = some a) :
    (l.set i b).countP p + (if p a then 1 else 0) = l.countP p + if p b then 1 else 0 := by
  induction l generalizing i with
  | nil => simp at found
  | cons c rest ih =>
    cases i with
    | zero =>
      simp only [List.getElem?_cons_zero, Option.some.injEq] at found
      subst found
      simp only [List.set_cons_zero, List.countP_cons]
      omega
    | succ i =>
      have later := ih (by simpa using found)
      simp only [List.set_cons_succ, List.countP_cons]
      omega

theorem sum_map_set_add (f : α → Nat) (b : α) (found : l[i]? = some a) :
    ((l.set i b).map f).sum + f a = (l.map f).sum + f b := by
  induction l generalizing i with
  | nil => simp at found
  | cons c rest ih =>
    cases i with
    | zero =>
      simp only [List.getElem?_cons_zero, Option.some.injEq] at found
      subst found
      simp only [List.set_cons_zero, List.map_cons, List.sum_cons]
      omega
    | succ i =>
      have later := ih (by simpa using found)
      simp only [List.set_cons_succ, List.map_cons, List.sum_cons]
      omega

theorem sum_map_le {f g : α → Nat} (below : ∀ x ∈ l, f x ≤ g x) : (l.map f).sum ≤ (l.map g).sum := by
  induction l with
  | nil => exact Nat.le_refl _
  | cons c rest ih =>
    have later := ih fun x member => below x (List.mem_cons_of_mem _ member)
    have first := below c List.mem_cons_self
    simp only [List.map_cons, List.sum_cons]
    omega

/-- Where no entry counts more, the sums are equal only if each entry counts the same. -/
theorem eq_of_sum_map_eq {f g : α → Nat} (below : ∀ x ∈ l, f x ≤ g x)
    (total : (l.map f).sum = (l.map g).sum) : ∀ x ∈ l, f x = g x := by
  induction l with
  | nil => nofun
  | cons c rest ih =>
    have later : ∀ x ∈ rest, f x ≤ g x := fun x member => below x (List.mem_cons_of_mem _ member)
    have first := below c List.mem_cons_self
    have sums := sum_map_le later
    simp only [List.map_cons, List.sum_cons] at total
    rw [List.forall_mem_cons]
    exact ⟨by omega, ih later (by omega)⟩

/-- What every entry meets, and the new one too, every entry still meets. -/
theorem forall_mem_set {motive : α → Prop} (all : ∀ x ∈ l, motive x) (new : motive b) :
    ∀ x ∈ l.set i b, motive x := by
  intro x member
  rcases List.mem_or_eq_of_mem_set member with old | rfl
  · exact all x old
  · exact new

end Library.Counting

namespace Library.Sift

variable {α : Type}

structure Sifted (α : Type) where
  taken : List α
  aside : List α
  rest : List α

def sift (keep : α → Bool) : Nat → List α → Sifted α
  | 0, queue => ⟨[], [], queue⟩
  | _ + 1, [] => ⟨[], [], []⟩
  | n + 1, a :: queue =>
    if keep a then
      let later := sift keep (n + 1) queue
      { later with aside := a :: later.aside }
    else
      let later := sift keep n queue
      { later with taken := a :: later.taken }

variable {keep : α → Bool} {n : Nat} {queue : List α}

@[simp] theorem sift_zero (keep : α → Bool) (queue : List α) : sift keep 0 queue = ⟨[], [], queue⟩ := by
  cases queue <;> rfl

@[simp] theorem sift_nil (keep : α → Bool) (n : Nat) : sift keep n [] = ⟨[], [], []⟩ := by
  cases n <;> rfl

theorem sift_taken (keep : α → Bool) (n : Nat) (queue : List α) :
    (sift keep n queue).taken = (queue.filter fun a => !keep a).take n := by
  induction queue generalizing n with
  | nil => simp
  | cons a queue ih =>
    cases n with
    | zero => simp
    | succ n =>
      cases kept : keep a with
      | true => simp [sift, kept, ih]
      | false => simp [sift, kept, ih]

/-- No element is lost, and none is there twice. -/
theorem sift_perm (keep : α → Bool) (n : Nat) (queue : List α) :
    ((sift keep n queue).taken ++ ((sift keep n queue).rest ++ (sift keep n queue).aside)).Perm queue := by
  induction queue generalizing n with
  | nil => simp
  | cons a queue ih =>
    cases n with
    | zero => simp
    | succ n =>
      cases kept : keep a with
      | true =>
        simp only [sift, kept, if_true]
        rw [← List.append_assoc]
        refine List.perm_middle.trans (List.Perm.cons a ?_)
        rw [List.append_assoc]
        exact ih (n + 1)
      | false =>
        simp only [sift, kept, Bool.false_eq_true, if_false, List.cons_append]
        exact (ih n).cons a

theorem sift_congr {other : α → Bool} (same : ∀ a ∈ queue, keep a = other a) :
    sift keep n queue = sift other n queue := by
  induction queue generalizing n with
  | nil => simp
  | cons a queue ih =>
    obtain ⟨here, later⟩ := List.forall_mem_cons.mp same
    cases n with
    | zero => simp
    | succ n =>
      unfold sift
      rw [here, ih later, ih later]

/-- What is left of a queue without repetitions: everything that was not taken, once. -/
theorem mem_left_iff (distinct : queue.Nodup) {a : α} :
    a ∈ (sift keep n queue).rest ++ (sift keep n queue).aside ↔
      a ∈ queue ∧ a ∉ (sift keep n queue).taken := by
  have perm := sift_perm keep n queue
  have apart := (List.nodup_append.mp (perm.nodup_iff.mpr distinct)).2.2
  constructor
  · intro left
    exact ⟨perm.mem_iff.mp (List.mem_append_right _ left), fun taken => apart _ taken _ left rfl⟩
  · rintro ⟨queued, untaken⟩
    rcases List.mem_append.mp (perm.mem_iff.mpr queued) with taken | left
    · exact absurd taken untaken
    · exact left

theorem nodup_left (distinct : queue.Nodup) :
    ((sift keep n queue).rest ++ (sift keep n queue).aside).Nodup :=
  (List.nodup_append.mp ((sift_perm keep n queue).nodup_iff.mpr distinct)).2.1

end Library.Sift

namespace Library.Weighing

variable {α β : Type} (weight : α → Nat)

def total (l : List α) : Nat := (l.map weight).sum

def AgreeOrLess (exact : Prop) (got want : List α) : Prop :=
  (exact ∧ got = want) ∨ (¬ exact ∧ total weight got < total weight want)

variable {weight} {exact exact' : Prop} {got got' want want' : List α}

@[simp] theorem total_nil : total weight [] = 0 := rfl

@[simp] theorem total_cons (a : α) (l : List α) : total weight (a :: l) = weight a + total weight l := by
  simp [total]

@[simp] theorem total_append (l l' : List α) :
    total weight (l ++ l') = total weight l + total weight l' := by
  simp [total]

namespace AgreeOrLess

theorem refl (l : List α) : AgreeOrLess weight True l l := .inl ⟨trivial, rfl⟩

theorem total_le (agree : AgreeOrLess weight exact got want) : total weight got ≤ total weight want := by
  rcases agree with ⟨-, rfl⟩ | ⟨-, less⟩
  · exact Nat.le_refl _
  · exact Nat.le_of_lt less

theorem congr (agree : AgreeOrLess weight exact got want) (same : exact ↔ exact') :
    AgreeOrLess weight exact' got want := by
  rwa [propext same] at agree

theorem append (front : AgreeOrLess weight exact got want) (back : AgreeOrLess weight exact' got' want') :
    AgreeOrLess weight (exact ∧ exact') (got ++ got') (want ++ want') := by
  have frontLe := front.total_le
  have backLe := back.total_le
  rcases front with ⟨here, rfl⟩ | ⟨here, less⟩
  · rcases back with ⟨there, rfl⟩ | ⟨there, less⟩
    · exact .inl ⟨⟨here, there⟩, rfl⟩
    · refine .inr ⟨fun both => there both.2, ?_⟩
      simp only [total_append]
      omega
  · refine .inr ⟨fun both => here both.1, ?_⟩
    simp only [total_append]
    omega

theorem flatMap {exact : β → Prop} {got want : β → List α} {l : List β}
    (agree : ∀ b ∈ l, AgreeOrLess weight (exact b) (got b) (want b)) :
    AgreeOrLess weight (∀ b ∈ l, exact b) (l.flatMap got) (l.flatMap want) := by
  induction l with
  | nil => exact .inl ⟨nofun, rfl⟩
  | cons b rest ih =>
    obtain ⟨here, later⟩ := List.forall_mem_cons.mp agree
    rw [List.flatMap_cons, List.flatMap_cons]
    exact (here.append (ih later)).congr List.forall_mem_cons.symm

/-- Leaving a part out is lighter wherever the part is not empty. -/
theorem nil (positive : ∀ a, 0 < weight a) (want : List α) : AgreeOrLess weight (want = []) [] want := by
  cases want with
  | nil => exact .inl ⟨rfl, rfl⟩
  | cons a rest =>
    have first := positive a
    refine .inr ⟨List.cons_ne_nil _ _, ?_⟩
    simp only [total_nil, total_cons]
    omega

/-- Rearranging a list does not change its weight. -/
theorem perm_iff (agree : AgreeOrLess weight exact got want) : got.Perm want ↔ exact := by
  constructor
  · intro perm
    rcases agree with ⟨here, -⟩ | ⟨-, less⟩
    · exact here
    · have same : total weight got = total weight want := (perm.map weight).sum_nat
      omega
  · intro here
    rcases agree with ⟨-, rfl⟩ | ⟨other, -⟩
    · exact .refl _
    · exact absurd here other

end AgreeOrLess

end Library.Weighing
