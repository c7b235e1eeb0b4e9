import Mathlib.Data.List.Nodup

/-!
# Maps and lists with distinct keys

Loops over the entries of a map or of a list, where the body of an entry touches the slot of its own
key only: each slot is touched at most once, and the result is described slot by slot. Also lookup in
such a list, and the part of a flattened list that one key contributes.
-/
namespace Library.KeyedMap

open Std

variable {κ α : Type} [Ord κ] [TransOrd κ]

/-- A slot no entry of the list names keeps its value. -/
theorem foldl_frame (step : ExtTreeMap κ α → κ → α → ExtTreeMap κ α)
    (update : Option α → α → Option α) (own : ∀ m k v k', (step m k v)[k']? =
      if compare k k' = .eq then update m[k]? v else m[k']?)
    (entries : List (κ × α)) (init : ExtTreeMap κ α) (key : κ)
    (absent : ∀ p ∈ entries, compare p.1 key ≠ .eq) :
    (entries.foldl (fun m p => step m p.1 p.2) init)[key]? = init[key]? := by
  induction entries generalizing init with
  | nil => rfl
  | cons p rest ih =>
    rw [List.foldl_cons, ih _ fun q member => absent q (List.mem_cons_of_mem _ member), own,
      if_neg (absent p List.mem_cons_self)]

/-- After the loop the slot of a key holds the update of its old value by the entry of
that key, and its old value where the map has no such entry. -/
theorem getElem?_foldl [LawfulEqOrd κ] (step : ExtTreeMap κ α → κ → α → ExtTreeMap κ α)
    (update : Option α → α → Option α) (own : ∀ m k v k', (step m k v)[k']? =
      if compare k k' = .eq then update m[k]? v else m[k']?)
    (entries init : ExtTreeMap κ α) (key : κ) : (entries.foldl step init)[key]? =
      match entries[key]? with
      | some v => update init[key]? v
      | none => init[key]? := by
  rw [ExtTreeMap.foldl_eq_foldl_toList]
  cases found : entries[key]? with
  | none =>
    apply foldl_frame step update own
    rintro ⟨k, v⟩ member same
    have equal : k = key := LawfulEqOrd.eq_of_compare same
    rw [ExtTreeMap.mem_toList_iff_getElem?_eq_some, equal, found] at member
    cases member
  | some v =>
    have member := ExtTreeMap.mem_toList_iff_getElem?_eq_some.mpr found
    have distinct := ExtTreeMap.distinct_keys_toList (t := entries)
    obtain ⟨before, after, split⟩ := List.append_of_mem member
    rw [split, List.pairwise_append, List.pairwise_cons] at distinct
    obtain ⟨-, ⟨later, -⟩, earlier⟩ := distinct
    have earlier_ne : ∀ p ∈ before, compare p.1 key ≠ .eq := fun p hp =>
      earlier p hp _ List.mem_cons_self
    have later_ne : ∀ p ∈ after, compare p.1 key ≠ .eq := fun p hp same =>
      later p hp (OrientedCmp.eq_symm same)
    rw [split, List.foldl_append, List.foldl_cons,
      foldl_frame step update own after _ _ later_ne, own, if_pos ReflCmp.compare_self,
      foldl_frame step update own before _ _ earlier_ne]

end Library.KeyedMap

namespace Library.KeyedList

variable {α κ : Type} [DecidableEq κ] {key : α → κ}

theorem find?_eq_some_iff {l : List α} (distinct : (l.map key).Nodup) {k : κ} {a : α} :
    l.find? (fun b => key b = k) = some a ↔ a ∈ l ∧ key a = k := by
  constructor
  · intro found
    exact ⟨List.mem_of_find?_eq_some found, by simpa using List.find?_some found⟩
  · rintro ⟨member, rfl⟩
    cases found : l.find? fun b => key b = key a with
    | none =>
      have absent := List.find?_eq_none.mp found a member
      simp at absent
    | some b =>
      have same : key b = key a := by simpa using List.find?_some found
      rw [List.inj_on_of_nodup_map distinct (List.mem_of_find?_eq_some found) member same]

theorem find?_eq_none_iff {l : List α} {k : κ} :
    l.find? (fun b => key b = k) = none ↔ k ∉ l.map key := by
  simp

/-- A loop over a list with distinct keys, where the body touches the slot of its own key,
updates each slot by the one element of that key. -/
theorem foldl_slot {σ β : Type} (key : α → κ) (valid : σ → Prop) (slot : σ → κ → β)
    {step : σ → α → σ} (update : α → β → β) (own : ∀ s a, valid s → valid (step s a) ∧
      ∀ k, slot (step s a) k = if k = key a then update a (slot s k) else slot s k)
    {l : List α} (distinct : (l.map key).Nodup) {s : σ} (start : valid s) :
    valid (l.foldl step s) ∧ ∀ k, slot (l.foldl step s) k =
      match l.find? fun a => key a = k with
      | some a => update a (slot s k)
      | none => slot s k := by
  induction l generalizing s with
  | nil => exact ⟨start, fun _ => rfl⟩
  | cons a rest ih =>
    obtain ⟨apart, distinct⟩ := List.nodup_cons.mp distinct
    obtain ⟨valid', slots⟩ := own s a start
    obtain ⟨final, later⟩ := ih distinct valid'
    refine ⟨final, ?_⟩
    intro k
    rw [List.foldl_cons, later, slots]
    by_cases same : key a = k
    · -- no later element has this key
      subst same
      rw [find?_eq_none_iff.mpr apart]
      simp
    · simp [same, Ne.symm same]

/-- What the element of one key contributes to a flattened list. -/
theorem filter_flatMap {β : Type} (tag : β → κ) {part : κ → List β}
    (tagged : ∀ k, ∀ b ∈ part k, tag b = k) {keys : List κ} (distinct : keys.Nodup) (k : κ) :
    (keys.flatMap part).filter (fun b => tag b = k) = if k ∈ keys then part k else [] := by
  induction keys with
  | nil => rfl
  | cons first rest ih =>
    obtain ⟨apart, distinct⟩ := List.nodup_cons.mp distinct
    rw [List.flatMap_cons, List.filter_append, ih distinct]
    by_cases same : k = first
    · subst same
      have all : (part k).filter (fun b => tag b = k) = part k :=
        List.filter_eq_self.mpr fun b member => by simpa using tagged k b member
      simp [all, apart]
    · have none : (part first).filter (fun b => tag b = k) = [] := by
        apply List.filter_eq_nil_iff.mpr
        intro b member
        rw [tagged first b member]
        simpa using Ne.symm same
      simp [none, same]

omit [DecidableEq κ] in
/-- Where the keys that there are differ, an element is known by its key. -/
theorem eq_of_nodup_filterMap {key : α → Option κ} {l : List α} (distinct : (l.filterMap key).Nodup) {a b : α}
    {k : κ} (first : a ∈ l) (second : b ∈ l) (left : key a = some k) (right : key b = some k) : a = b := by
  induction l with
  | nil => cases first
  | cons c rest ih =>
    -- an element of the rest with the key of the head would repeat it
    have repeats {d : α} (head : key c = some k) (member : d ∈ rest) (same : key d = some k) : False := by
      rw [List.filterMap_cons_some head] at distinct
      exact (List.nodup_cons.mp distinct).1 (List.mem_filterMap.mpr ⟨d, member, same⟩)
    rcases List.mem_cons.mp first with rfl | behind
    · rcases List.mem_cons.mp second with rfl | after
      · rfl
      · exact (repeats left after right).elim
    · rcases List.mem_cons.mp second with rfl | after
      · exact (repeats right behind left).elim
      · refine ih ?_ behind after
        cases head : key c with
        | none => rwa [List.filterMap_cons_none head] at distinct
        | some k' =>
          rw [List.filterMap_cons_some head] at distinct
          exact (List.nodup_cons.mp distinct).2

/-- Where each key stands once, it does not matter from which end it is looked for. -/
theorem find?_reverse_of_nodup {l : List α} (distinct : (l.map key).Nodup) (k : κ) :
    l.reverse.find? (fun a => key a = k) = l.find? fun a => key a = k := by
  have mirrored : (l.reverse.map key).Nodup := by
    rw [List.map_reverse]
    exact List.nodup_reverse.mpr distinct
  ext a
  rw [find?_eq_some_iff mirrored, find?_eq_some_iff distinct, List.mem_reverse]

theorem find?_congr_of_mem {p q : α → Bool} {l : List α} (same : ∀ a ∈ l, p a = q a) :
    l.find? p = l.find? q := by
  induction l with
  | nil => rfl
  | cons a rest ih =>
    rw [List.find?_cons, List.find?_cons, same a List.mem_cons_self,
      ih fun b member => same b (List.mem_cons_of_mem a member)]

end Library.KeyedList

/-! ### Pruning what is old -/

namespace Library.Pruning

variable {π γ κ : Type} (key : π → κ) (ref : γ → κ) (oldParent : π → Bool) (oldChild : γ → Bool)

/-- Pruned by age: what is not old stays as it was, every old child goes, an old parent stays for a
child only, and no child is without its parent. -/
structure ByAge (parents parents' : List π) (children children' : List γ) : Prop where
  fewerParents : parents'.Sublist parents
  fewerChildren : children'.Sublist children
  freshParents : (parents'.filter fun p => !oldParent p) = parents.filter fun p => !oldParent p
  freshChildren : (children'.filter fun c => !oldChild c) = children.filter fun c => !oldChild c
  oldChildren : ∀ c ∈ children', oldChild c = false
  oldParents : ∀ p ∈ parents', oldParent p = true → ∃ c ∈ children', ref c = key p
  linked : ∀ c ∈ children', ∃ p ∈ parents', key p = ref c

/-- Every child has its parent, and the two are of one age. -/
def AgesAgree (parents : List π) (children : List γ) : Prop :=
  ∀ c ∈ children, ∃ p ∈ parents, key p = ref c ∧ oldParent p = oldChild c

instance [DecidableEq κ] (parents : List π) (children : List γ) :
    Decidable (AgesAgree key ref oldParent oldChild parents children) :=
  inferInstanceAs (Decidable (∀ c ∈ children, ∃ p ∈ parents, key p = ref c ∧ oldParent p = oldChild c))

/-- The children that stay when each goes with an old parent. -/
def childrenOfFresh [DecidableEq κ] (parents : List π) (children : List γ) : List γ :=
  children.filter fun c => !parents.any fun p => oldParent p && key p = ref c

variable {key ref oldParent oldChild} [DecidableEq κ] {parents : List π} {children : List γ}

theorem mem_childrenOfFresh {c : γ} :
    c ∈ childrenOfFresh key ref oldParent parents children ↔
      c ∈ children ∧ ∀ p ∈ parents, key p = ref c → oldParent p = false := by
  simp only [childrenOfFresh, List.mem_filter, Bool.not_eq_true', List.any_eq_false, Bool.and_eq_true,
    decide_eq_true_eq, not_and]
  exact and_congr_right fun _ => forall₂_congr fun p _ => by
    cases oldParent p <;> simp

/-- Once the old parents are gone too, there is nothing left to take. -/
theorem childrenOfFresh_fresh :
    childrenOfFresh key ref oldParent (parents.filter fun p => !oldParent p) children = children := by
  apply List.filter_eq_self.mpr
  intro c _
  simp only [Bool.not_eq_true', List.any_eq_false, List.mem_filter]
  rintro p ⟨-, fresh⟩
  simp [fresh]

theorem childrenOfFresh_eq_filter (distinct : (parents.map key).Nodup)
    (agree : AgesAgree key ref oldParent oldChild parents children) :
    childrenOfFresh key ref oldParent parents children = children.filter fun c => !oldChild c := by
  apply List.filter_congr
  intro c member
  obtain ⟨p, parent, same, age⟩ := agree c member
  rw [← age]
  congr 1
  cases old : oldParent p with
  | true => exact List.any_eq_true.mpr ⟨p, parent, by simp [old, same]⟩
  | false =>
    apply List.any_eq_false.mpr
    intro q parent'
    simp only [Bool.and_eq_true, decide_eq_true_eq, not_and]
    intro old' same'
    rw [List.inj_on_of_nodup_map distinct parent' parent (same'.trans same.symm), old] at old'
    cases old'

/-- Taking the children by the age of their parents prunes by age exactly where the ages agree. -/
theorem byAge_iff (distinct : (parents.map key).Nodup) :
    ByAge key ref oldParent oldChild parents (parents.filter fun p => !oldParent p)
      children (childrenOfFresh key ref oldParent parents children) ↔
        AgesAgree key ref oldParent oldChild parents children := by
  constructor
  · intro pruned c member
    cases old : oldChild c with
    | false =>
      -- a fresh child is kept, and with it a parent that is no old one
      have stays : c ∈ children.filter fun c => !oldChild c := by simp [member, old]
      rw [← pruned.freshChildren] at stays
      obtain ⟨p, parent, same⟩ := pruned.linked c (List.mem_filter.mp stays).1
      obtain ⟨parent, fresh⟩ := List.mem_filter.mp parent
      exact ⟨p, parent, same, by simpa using fresh⟩
    | true =>
      by_contra none
      push Not at none
      have stays : c ∈ childrenOfFresh key ref oldParent parents children :=
        mem_childrenOfFresh.mpr ⟨member, fun p parent same => by simpa using none p parent same⟩
      rw [pruned.oldChildren c stays] at old
      cases old
  · intro agree
    rw [childrenOfFresh_eq_filter distinct agree]
    refine ⟨List.filter_sublist, List.filter_sublist, by simp, by simp, ?_, ?_, ?_⟩
    · intro c member
      simpa using (List.mem_filter.mp member).2
    · intro p member old
      simp [old] at member
    · intro c member
      obtain ⟨member, fresh⟩ := List.mem_filter.mp member
      obtain ⟨p, parent, same, age⟩ := agree c member
      exact ⟨p, List.mem_filter.mpr ⟨parent, by rwa [age]⟩, same⟩

end Library.Pruning
