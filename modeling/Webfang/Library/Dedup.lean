import Mathlib.Algebra.Order.Ring.Int
import Mathlib.Data.List.Destutter

/-!
# Dedup sets

A set beside the list of the keys it has let through, in order. The set answers for the
list, and the list holds each key once. Also the list that takes the items whose key it does
not hold yet, the list sorted by a key of which every run keeps its first element, the list whose
entries claim their keys before they are tried, and the list that looks for keys among its items.
-/
namespace Library

variable {κ : Type} [Ord κ] [Std.TransOrd κ] [Std.LawfulEqOrd κ]

structure Mirrors (set : Std.ExtTreeSet κ) (keys : List κ) : Prop where
  mem : ∀ key, key ∈ set ↔ key ∈ keys
  distinct : keys.Nodup

namespace Mirrors

variable {set : Std.ExtTreeSet κ} {keys : List κ}

omit [Std.LawfulEqOrd κ] in
theorem empty : Mirrors (∅ : Std.ExtTreeSet κ) [] where
  mem key := by simp
  distinct := List.nodup_nil

theorem insert (mirrors : Mirrors set keys) {key : κ} (fresh : key ∉ set) :
    Mirrors (set.insert key) (keys ++ [key]) where
  mem other := by
    rw [Std.ExtTreeSet.mem_insert, mirrors.mem, Std.LawfulEqCmp.compare_eq_iff_eq,
      List.mem_append, List.mem_singleton, or_comm, eq_comm]
  distinct := by
    rw [mirrors.mem] at fresh
    refine List.nodup_append.mpr ⟨mirrors.distinct, by simp, ?_⟩
    intro old member new appended same
    rw [List.mem_singleton] at appended
    exact fresh (appended ▸ same ▸ member)

end Mirrors

namespace AppendNew

variable {α β μ : Type} [DecidableEq μ] {key : α → μ} {make : β → α}

def step (key : α → μ) (items : List α) (item : α) : List α :=
  if items.any fun old => key old = key item then items else items ++ [item]

theorem mem_foldl_step {new items : List α} {item : α}
    (member : item ∈ new.foldl (step key) items) : item ∈ items ∨ item ∈ new := by
  induction new generalizing items with
  | nil => exact .inl member
  | cons first rest ih =>
    rcases ih member with held | later
    · unfold step at held
      split at held
      next => exact .inl held
      next =>
        rcases List.mem_append.mp held with old | last
        · exact .inl old
        · exact .inr (List.mem_cons.mpr (.inl (List.mem_singleton.mp last)))
    · exact .inr (List.mem_cons_of_mem _ later)

variable [BEq β] [LawfulBEq β]

/-- The old items, and after them each new one whose key is not among theirs, once. -/
theorem foldl_step (distinct : ∀ b c, key (make b) = key (make c) → b = c) (items : List α)
    (new : List β) : (new.map make).foldl (step key) items =
      items ++ (new.filter fun b => !items.any fun old => key old = key (make b)).eraseDups.map make := by
  induction new generalizing items with
  | nil => simp
  | cons b rest ih =>
    rw [List.map_cons, List.foldl_cons, ih]
    by_cases held : (items.any fun old => key old = key (make b)) = true
    · rw [step, if_pos held, List.filter_cons_of_neg (by simpa using held)]
    · -- the item is the first of its key, and later ones of that key are dropped
      have later : (rest.filter fun c => !(items ++ [make b]).any fun old => key old = key (make c)) =
          (rest.filter fun c => !items.any fun old => key old = key (make c)).filter fun c =>
            !c == b := by
        rw [List.filter_filter]
        apply List.filter_congr
        intro c _
        rw [List.any_append, Bool.not_or, Bool.and_comm]
        congr 1
        by_cases same : c = b
        · simp [same]
        · have apart : key (make b) ≠ key (make c) := fun equal => same (distinct b c equal).symm
          simp [same, apart]
      rw [step, if_neg held, List.filter_cons_of_pos (by simpa using held), List.eraseDups_cons,
        List.map_cons, later, List.append_assoc]
      rfl

/-- Nothing is added where every key is there. -/
theorem foldl_step_of_held (distinct : ∀ b c, key (make b) = key (make c) → b = c)
    {items : List α} {new : List β} (held : ∀ b ∈ new, ∃ old ∈ items, key old = key (make b)) :
    (new.map make).foldl (step key) items = items := by
  have none : (new.filter fun b => !items.any fun old => key old = key (make b)) = [] := by
    apply List.filter_eq_nil_iff.mpr
    intro b member
    obtain ⟨old, inside, same⟩ := held b member
    simpa using ⟨old, inside, same⟩
  rw [foldl_step distinct, none]
  simp

theorem held_of_foldl_step (distinct : ∀ b c, key (make b) = key (make c) → b = c)
    (items : List α) (new : List β) :
    ∀ b ∈ new, ∃ old ∈ (new.map make).foldl (step key) items, key old = key (make b) := by
  intro b member
  rw [foldl_step distinct]
  by_cases held : ∃ old ∈ items, key old = key (make b)
  · obtain ⟨old, inside, same⟩ := held
    exact ⟨old, List.mem_append_left _ inside, same⟩
  · refine ⟨make b, List.mem_append_right _ (List.mem_map_of_mem ?_), rfl⟩
    rw [List.mem_eraseDups, List.mem_filter]
    exact ⟨member, by simpa using held⟩

end AppendNew

end Library

namespace Library

variable {α κ : Type} [LinearOrder κ] (key : α → κ)

def sortByKey (l : List α) : List α := l.mergeSort fun a b => decide (key a ≤ key b)

/-- `sort_by` the key and then `dedup_by` it. -/
def sortedDedup (l : List α) : List α := (sortByKey key l).destutter fun a b => key a ≠ key b

theorem pairwise_sortByKey (l : List α) : (sortByKey key l).Pairwise fun a b => key a ≤ key b := by
  have sorted := @List.pairwise_mergeSort α (fun a b => decide (key a ≤ key b))
    (fun a b c => by simpa only [decide_eq_true_eq] using le_trans)
    (fun a b => by simpa only [Bool.or_eq_true, decide_eq_true_eq] using le_total (key a) (key b)) l
  simpa only [sortByKey, decide_eq_true_eq] using sorted

variable {key}

/-- Where the keys rise and neighbours differ, all of them differ. -/
theorem nodup_of_sorted {l : List α} (sorted : l.Pairwise fun a b => key a ≤ key b)
    (apart : l.IsChain fun a b => key a ≠ key b) : (l.map key).Nodup := by
  induction l with
  | nil => exact List.nodup_nil
  | cons a rest ih =>
    obtain ⟨first, later⟩ := List.pairwise_cons.mp sorted
    rw [List.map_cons, List.nodup_cons]
    refine ⟨fun again => ?_, ih later apart.tail⟩
    cases rest with
    | nil => cases again
    | cons b rest =>
      -- the neighbour is above, and everything behind it at least as high
      have above : key a < key b :=
        lt_of_le_of_ne (first b List.mem_cons_self) (List.isChain_cons_cons.mp apart).1
      obtain ⟨c, member, same⟩ := List.mem_map.mp again
      have reached : key b ≤ key c := by
        rcases List.mem_cons.mp member with rfl | behind
        · exact le_refl _
        · exact (List.pairwise_cons.mp later).1 c behind
      exact absurd same (above.trans_le reached).ne'

variable (key)

theorem nodup_sortedDedup (l : List α) : ((sortedDedup key l).map key).Nodup :=
  nodup_of_sorted ((pairwise_sortByKey key l).sublist (List.destutter_sublist _ _))
    (List.isChain_destutter _ _)

variable {key}

theorem filter_sortByKey (k : κ) (l : List α) :
    (sortByKey key l).filter (fun a => key a = k) = l.filter fun a => key a = k := by
  have level : (l.filter fun a => key a = k).Pairwise fun a b => decide (key a ≤ key b) = true := by
    refine List.pairwise_of_forall_mem_list fun a here b there => ?_
    simp only [List.mem_filter, decide_eq_true_eq] at here there
    rw [decide_eq_true_eq, here.2, there.2]
  have kept : (l.filter fun a => key a = k).Sublist (sortByKey key l) :=
    List.sublist_mergeSort (fun a b c => by simpa only [decide_eq_true_eq] using le_trans)
      (fun a b => by simpa only [Bool.or_eq_true, decide_eq_true_eq] using le_total (key a) (key b))
      level List.filter_sublist
  have inside := kept.filter fun a => decide (key a = k)
  simp only [List.filter_filter, Bool.and_self] at inside
  have counted := ((List.mergeSort_perm l fun a b => decide (key a ≤ key b)).filter
    fun a => decide (key a = k)).length_eq
  exact (inside.eq_of_length counted.symm).symm

/-- Two sorted lists with the same elements of every key, in the same order, are the same. -/
theorem eq_of_sorted {l m : List α} (sorted : l.Pairwise fun a b => key a ≤ key b)
    (sorted' : m.Pairwise fun a b => key a ≤ key b)
    (same : ∀ k, l.filter (fun a => key a = k) = m.filter fun a => key a = k) : l = m := by
  have mem_iff (a : α) : a ∈ l ↔ a ∈ m := by
    have here := congrArg (a ∈ ·) (same (key a))
    simpa only [List.mem_filter, decide_true, and_true, eq_iff_iff] using here
  induction l generalizing m with
  | nil =>
    refine (List.eq_nil_iff_forall_not_mem.mpr fun a member => ?_).symm
    cases (mem_iff a).mpr member
  | cons a rest ih =>
    cases m with
    | nil => cases (mem_iff a).mp List.mem_cons_self
    | cons b rest' =>
      obtain ⟨first, later⟩ := List.pairwise_cons.mp sorted
      obtain ⟨first', later'⟩ := List.pairwise_cons.mp sorted'
      -- both heads have the least key
      have below : key a ≤ key b := by
        rcases List.mem_cons.mp ((mem_iff b).mpr List.mem_cons_self) with rfl | behind
        · exact le_rfl
        · exact first b behind
      have above : key b ≤ key a := by
        rcases List.mem_cons.mp ((mem_iff a).mp List.mem_cons_self) with rfl | behind
        · exact le_rfl
        · exact first' a behind
      have keys := le_antisymm below above
      have heads := same (key a)
      rw [List.filter_cons_of_pos (by simp), List.filter_cons_of_pos (by simp [keys])] at heads
      obtain ⟨rfl, -⟩ := List.cons.inj heads
      have rests (k : κ) : rest.filter (fun c => key c = k) = rest'.filter fun c => key c = k := by
        have whole := same k
        by_cases here : key a = k
        · rw [List.filter_cons_of_pos (by simpa using here),
            List.filter_cons_of_pos (by simpa using here)] at whole
          exact (List.cons.inj whole).2
        · rwa [List.filter_cons_of_neg (by simpa using here),
            List.filter_cons_of_neg (by simpa using here)] at whole
      congr 1
      refine ih later later' rests fun c => ?_
      have here := congrArg (c ∈ ·) (rests (key c))
      simpa only [List.mem_filter, decide_true, and_true, eq_iff_iff] using here

theorem sortedDedup_congr {l m : List α}
    (same : ∀ k, l.filter (fun a => key a = k) = m.filter fun a => key a = k) :
    sortedDedup key l = sortedDedup key m := by
  have sorted := eq_of_sorted (pairwise_sortByKey key l) (pairwise_sortByKey key m)
    fun k => by rw [filter_sortByKey, filter_sortByKey, same k]
  rw [sortedDedup, sortedDedup, sorted]

theorem filter_destutter' {a : α} {l : List α} (sorted : (a :: l).Pairwise fun a b => key a ≤ key b) (k : κ) :
    (l.destutter' (fun a b => key a ≠ key b) a).filter (fun a => key a = k) =
      ((a :: l).filter fun a => key a = k).take 1 := by
  induction l generalizing a with
  | nil => by_cases here : key a = k <;> simp [here]
  | cons b rest ih =>
    obtain ⟨first, later⟩ := List.pairwise_cons.mp sorted
    by_cases apart : key a ≠ key b
    · rw [List.destutter'_cons, if_pos apart]
      by_cases here : key a = k
      · -- all behind it are greater
        have above : ((b :: rest).filter fun c => key c = k) = [] := by
          refine List.filter_eq_nil_iff.mpr fun c member same => ?_
          rw [decide_eq_true_eq] at same
          have reached : key b ≤ key c := by
            rcases List.mem_cons.mp member with rfl | behind
            · exact le_rfl
            · exact (List.pairwise_cons.mp later).1 c behind
          exact apart (le_antisymm (first b List.mem_cons_self) (reached.trans (same.trans here.symm).le))
        rw [List.filter_cons_of_pos (a := a) (by simpa using here),
          List.filter_cons_of_pos (a := a) (l := b :: rest) (by simpa using here), ih later, above]
        rfl
      · rw [List.filter_cons_of_neg (a := a) (by simpa using here),
          List.filter_cons_of_neg (a := a) (l := b :: rest) (by simpa using here), ih later]
    · rw [List.destutter'_cons, if_neg apart, ih (sorted.sublist (by simp))]
      rw [not_not] at apart
      by_cases here : key a = k
      · rw [List.filter_cons_of_pos (by simpa using here), List.filter_cons_of_pos (by simpa using here)]
        rfl
      · rw [List.filter_cons_of_neg (a := a) (by simpa using here),
          List.filter_cons_of_neg (a := a) (by simpa using here),
          List.filter_cons_of_neg (by simpa [← apart] using here)]

theorem filter_sortedDedup (k : κ) (l : List α) :
    (sortedDedup key l).filter (fun a => key a = k) = (l.filter fun a => key a = k).take 1 := by
  rw [← filter_sortByKey k l, sortedDedup]
  cases sorted : sortByKey key l with
  | nil => rfl
  | cons a rest => exact filter_destutter' (sorted ▸ pairwise_sortByKey key l) k

/-- What is left is the first element of its key. -/
theorem mem_sortedDedup {l : List α} {a : α} :
    a ∈ sortedDedup key l ↔ l.find? (fun b => key b = key a) = some a := by
  have kept : a ∈ sortedDedup key l ↔ a ∈ (sortedDedup key l).filter fun b => key b = key a := by
    simp [List.mem_filter]
  rw [kept, filter_sortedDedup, ← List.head?_filter]
  cases l.filter fun b => key b = key a with
  | nil => simp
  | cons b rest => simp [eq_comm]

/-! ### Numbered parts -/

section Numbered

variable {α β : Type} {parts : List α} {k : Nat}

theorem number_unique {a b : α} {n : Nat} (first : (a, n) ∈ parts.zipIdx k)
    (second : (b, n) ∈ parts.zipIdx k) : a = b := by
  rw [List.mk_mem_zipIdx_iff_le_and_getElem?_sub] at first second
  exact Option.some.inj (first.2.symm.trans second.2)

theorem nodup_zipIdx (parts : List α) (k : Nat) : (parts.zipIdx k).Nodup := by
  refine List.Nodup.of_map Prod.snd ?_
  rw [List.zipIdx_map_snd]
  exact List.nodup_range'

theorem nodup_flatMap_zipIdx {elements : α × Nat → List β}
    (nodup : ∀ part ∈ parts.zipIdx k, (elements part).Nodup) :
    ((parts.zipIdx k).flatMap elements).Nodup ↔
      ∀ first ∈ parts.zipIdx k, ∀ second ∈ parts.zipIdx k, ∀ b, b ∈ elements first →
        b ∈ elements second → first.2 = second.2 := by
  rw [List.nodup_flatMap]
  constructor
  · rintro ⟨-, apart⟩ first member second member' b listed again
    by_contra distinct
    have : Std.Symm (Function.onFun List.Disjoint elements) := ⟨fun _ _ => List.Disjoint.symm⟩
    have disjoint := apart.forall member member' fun same => distinct (congrArg Prod.snd same)
    exact disjoint listed again
  · intro once
    refine ⟨nodup, (nodup_zipIdx parts k).pairwise_of_forall_ne ?_⟩
    rintro ⟨a, n⟩ member ⟨c, m⟩ member' distinct b listed again
    -- the number of a part determines it
    obtain rfl : n = m := once _ member _ member' b listed again
    exact distinct (by rw [number_unique member member'])

end Numbered

/-! ### Keys among the items -/

section OneEach

variable {α κ : Type} [DecidableEq κ] {key : α → κ} {items kept : List α} {item : α}

structure OneEach (key : α → κ) (items kept : List α) : Prop where
  distinct : (kept.map key).Nodup
  first : ∀ item, item ∈ kept ↔ items.find? (fun other => decide (key other = key item)) = some item

theorem OneEach.mem (one : OneEach key items kept) (member : item ∈ kept) : item ∈ items :=
  List.mem_of_find?_eq_some ((one.first item).mp member)

theorem OneEach.of_find (one : OneEach key items kept) {first : α}
    (found : items.find? (fun other => decide (key other = key item)) = some first) :
    first ∈ kept ∧ key first = key item := by
  have same : key first = key item := by simpa using List.find?_some found
  exact ⟨(one.first first).mpr (by rwa [same]), same⟩

theorem OneEach.exists_key (one : OneEach key items kept) (member : item ∈ items) :
    ∃ first ∈ kept, key first = key item := by
  have found : (items.find? fun other => decide (key other = key item)).isSome = true :=
    List.find?_isSome.mpr ⟨item, member, decide_eq_true rfl⟩
  obtain ⟨first, found⟩ := Option.isSome_iff_exists.mp found
  exact ⟨first, one.of_find found⟩

theorem OneEach.concat_of_new (one : OneEach key items kept) (new : ∀ old ∈ items, key old ≠ key item) :
    OneEach key (items ++ [item]) (kept ++ [item]) where
  distinct := by
    rw [List.map_append, List.map_singleton, List.nodup_append]
    refine ⟨one.distinct, List.nodup_singleton _, fun old member last single => ?_⟩
    obtain ⟨other, held, rfl⟩ := List.mem_map.mp member
    rw [List.mem_singleton.mp single]
    exact new other (one.mem held)
  first other := by
    rw [List.mem_append, List.mem_singleton, one.first, List.find?_append]
    by_cases same : key item = key other
    · have none : (items.find? fun old => decide (key old = key other)) = none := by
        rw [List.find?_eq_none]
        exact fun old member => by simpa [← same] using new old member
      rw [none]
      simpa [same] using eq_comm
    · have apart : other ≠ item := fun equal => same (congrArg key equal.symm)
      simp [same, apart]

theorem OneEach.concat_of_held (one : OneEach key items kept) (held : ∃ old ∈ items, key old = key item) :
    OneEach key (items ++ [item]) kept where
  distinct := one.distinct
  first other := by
    rw [one.first, List.find?_append]
    cases found : items.find? fun old => decide (key old = key other) with
    | some first => simp
    | none =>
      obtain ⟨old, member, same⟩ := held
      have apart : key item ≠ key other := fun equal =>
        List.find?_eq_none.mp found old member (decide_eq_true (same.trans equal))
      simp [apart]

end OneEach

namespace KeyAmongItems

variable {α : Type} [DecidableEq α] {key : α → α} {items front back : List α} {item : α}

def step (key : α → α) (kept : List α) (item : α) : List α :=
  if key item ∈ kept then kept else kept ++ [item]

def run (key : α → α) (items : List α) : List α := items.foldl (step key) []

/-- Where a key comes again, its first item is spelled like the key; and an item that is spelled like a
key has that key. -/
structure Spelled (key : α → α) (items : List α) : Prop where
  closed : ∀ item ∈ items, key item ∈ items → key (key item) = key item
  again : ∀ front item back, items = front ++ item :: back → ∀ first,
    front.find? (fun other => decide (key other = key item)) = some first → first = key item

theorem run_concat (items : List α) (item : α) : run key (items ++ [item]) = step key (run key items) item :=
  List.foldl_concat ..

theorem prefix_foldl_step (kept items : List α) : kept <+: items.foldl (step key) kept := by
  induction items generalizing kept with
  | nil => exact List.prefix_rfl
  | cons item rest ih =>
    refine List.IsPrefix.trans ?_ (ih _)
    rw [step]
    split
    next => exact List.prefix_rfl
    next => exact List.prefix_append _ _

theorem run_append (front back : List α) : run key front <+: run key (front ++ back) := by
  rw [run, run, List.foldl_append]
  exact prefix_foldl_step _ _

theorem mem_of_mem_run {other : α} (member : other ∈ run key items) : other ∈ items := by
  induction items using List.reverseRecOn with
  | nil => exact member
  | append_singleton items item ih =>
    rw [run_concat, step] at member
    split at member
    next => exact List.mem_append_left _ (ih member)
    next =>
      rcases List.mem_append.mp member with held | last
      · exact List.mem_append_left _ (ih held)
      · exact List.mem_append_right _ last

theorem keys_run (closed : ∀ item ∈ items, key item ∈ items → key (key item) = key item) (k : α) :
    k ∈ (run key items).map key ↔ k ∈ items.map key := by
  induction items using List.reverseRecOn with
  | nil => exact Iff.rfl
  | append_singleton items item ih =>
    have earlier := ih fun other member held =>
      closed other (List.mem_append_left _ member) (List.mem_append_left _ held)
    rw [run_concat, step, List.map_append, List.mem_append, ← earlier]
    split
    next held =>
      have spelled := closed item (by simp) (List.mem_append_left _ (mem_of_mem_run held))
      have listed : key item ∈ (run key items).map key := List.mem_map.mpr ⟨_, held, spelled⟩
      refine ⟨.inl, ?_⟩
      rintro (before | last)
      · exact before
      · rwa [List.mem_singleton.mp last]
    next => rw [List.map_append, List.mem_append, List.map_singleton]

/-- Behind an item that is spelled like a key and has another, nothing of that key is kept. -/
theorem not_mem_keys {v : α} (apart : key v ≠ v) (rest : List α) : v ∉ (run key (v :: rest)).map key := by
  have kept (items kept : List α) (held : v ∈ kept) (others : ∀ w ∈ kept, key w ≠ v) :
      ∀ w ∈ items.foldl (step key) kept, key w ≠ v := by
    induction items generalizing kept with
    | nil => exact others
    | cons item rest ih =>
      rw [List.foldl_cons, step]
      split
      next => exact ih kept held others
      next new =>
        refine ih _ (List.mem_append_left _ held) fun w member => ?_
        rcases List.mem_append.mp member with old | last
        · exact others w old
        · rw [List.mem_singleton.mp last]
          exact fun same => new (same ▸ held)
  intro listed
  obtain ⟨w, member, same⟩ := List.mem_map.mp listed
  have first : step key [] v = [v] := if_neg List.not_mem_nil
  rw [run, List.foldl_cons, first] at member
  exact kept rest [v] List.mem_cons_self (fun w only => by rwa [List.mem_singleton.mp only]) w member same

theorem oneEach_run (spelled : Spelled key items) : OneEach key items (run key items) := by
  induction items using List.reverseRecOn with
  | nil => exact ⟨List.nodup_nil, fun item => by simp [run]⟩
  | append_singleton items item ih =>
    have one := ih ⟨fun other member held =>
      spelled.closed other (List.mem_append_left _ member) (List.mem_append_left _ held),
      fun front other back whole => spelled.again front other (back ++ [item]) (by simp [whole])⟩
    rw [run_concat, step]
    split
    next held =>
      have there := mem_of_mem_run held
      exact one.concat_of_held
        ⟨key item, there, spelled.closed item (by simp) (List.mem_append_left _ there)⟩
    next new =>
      refine one.concat_of_new fun old member same => new ?_
      -- the first item of the key would be the key itself
      have found : (items.find? fun other => decide (key other = key item)).isSome = true :=
        List.find?_isSome.mpr ⟨old, member, decide_eq_true same⟩
      obtain ⟨first, found⟩ := Option.isSome_iff_exists.mp found
      rw [← spelled.again items item [] rfl first found]
      exact (one.of_find found).1

theorem again_of_oneEach (closed : ∀ item ∈ items, key item ∈ items → key (key item) = key item)
    (one : OneEach key items (run key items)) (whole : items = front ++ item :: back) {first : α}
    (found : front.find? (fun other => decide (key other = key item)) = some first) : first = key item := by
  subst whole
  have here : item ∈ front ++ item :: back := by simp
  have reached : run key (front ++ [item]) <+: run key (front ++ item :: back) := by
    rw [List.append_cons front item back]
    exact run_append _ _
  have same : key first = key item := by simpa using List.find?_some found
  rw [run_concat, step] at reached
  split at reached
  next held =>
    -- both are kept and have the key
    have there : key item ∈ run key (front ++ item :: back) := reached.subset held
    have spelled := closed item here (mem_of_mem_run there)
    have kept : first ∈ run key (front ++ item :: back) := by
      rw [one.first, same, List.find?_append, found]
      rfl
    exact List.inj_on_of_nodup_map one.distinct kept there (same.trans spelled.symm)
  next new =>
    have listed : key item ∈ (run key front).map key := by
      have earlier : ∀ other ∈ front, key other ∈ front → key (key other) = key other :=
        fun other member held => closed other (List.mem_append_left _ member) (List.mem_append_left _ held)
      rw [keys_run earlier]
      exact List.mem_map.mpr ⟨first, List.mem_of_find?_eq_some found, same⟩
    have distinct := one.distinct.sublist (reached.sublist.map key)
    rw [List.map_append, List.nodup_append] at distinct
    exact absurd rfl (distinct.2.2 _ listed _ (by simp))

end KeyAmongItems

end Library

namespace Library

variable {α κ : Type} {key : α → κ} {good done : α → Bool} {again : α → Prop} {l front back : List α}
  {a : α}

/-- An entry is a repetition if its key was claimed in front of it, and is done if it was not and the
entry is good. -/
structure ClaimsFirst (key : α → κ) (good done : α → Bool) (again : α → Prop) (l : List α) : Prop where
  again_iff : ∀ front a back, l = front ++ a :: back → (again a ↔ ∃ b ∈ front, key b = key a)
  done_iff : ∀ front a back, l = front ++ a :: back →
    (done a = true ↔ (∀ b ∈ front, key b ≠ key a) ∧ good a = true)

/-- The entries of a kind are served: one is done where one is good, and none that is valid is a
repetition of none that was done. -/
structure Served (kind good done : α → Bool) (valid again : α → Prop) (l : List α) : Prop where
  once : (∃ a ∈ l, kind a = true ∧ good a = true) → (l.filter fun a => kind a && done a).length = 1
  behind : ∀ front a back, l = front ++ a :: back → kind a = true → valid a → again a →
    ∃ b ∈ front, kind b = true ∧ done b = true

namespace ClaimsFirst

variable {valid : α → Prop}

theorem filter_done (claims : ClaimsFirst key good done again l) (kind : α → Bool)
    (whole : l = front ++ a :: back) (same : ∀ b, kind b = true → key b = key a)
    (fresh : ∀ b ∈ front, key b ≠ key a) (here : kind a = true) (fine : good a = true) :
    l.filter (fun a => kind a && done a) = [a] := by
  have first : done a = true := (claims.done_iff front a back whole).mpr ⟨fresh, fine⟩
  have before : front.filter (fun a => kind a && done a) = [] := by
    refine List.filter_eq_nil_iff.mpr fun b member => ?_
    rw [Bool.and_eq_true]
    exact fun both => fresh b member (same b both.1)
  have later : back.filter (fun a => kind a && done a) = [] := by
    refine List.filter_eq_nil_iff.mpr fun b member => ?_
    rw [Bool.and_eq_true]
    rintro ⟨ofKind, ended⟩
    -- an entry behind the first one would have to be new
    rcases List.append_of_mem member with ⟨between, rest, rfl⟩
    have split : l = (front ++ a :: between) ++ b :: rest := by rw [whole]; simp
    have new := ((claims.done_iff _ b rest split).mp ended).1 a (by simp)
    exact new (same b ofKind).symm
  rw [whole, List.filter_append, before, List.filter_cons_of_pos (by rw [here, first]; rfl), later,
    List.nil_append]

/-- The entries of a kind are served exactly where the first entry of their key is one of them and
good, or none of them behind it is valid. -/
theorem served_iff [DecidableEq κ] (claims : ClaimsFirst key good done again l) (kind : α → Bool) {k : κ}
    (same : ∀ b, kind b = true → key b = k) (sound : ∀ b, good b = true → valid b) :
    Served kind good done valid again l ↔
      (∃ a, l.find? (fun b => decide (key b = k)) = some a ∧ kind a = true ∧ good a = true) ∨
        ∀ front a back, l = front ++ a :: back → kind a = true → (∃ b ∈ front, key b = k) → ¬ valid a := by
  constructor
  · intro served
    by_contra neither
    rw [not_or] at neither
    rcases neither with ⟨unserved, some_valid⟩
    push Not at some_valid
    rcases some_valid with ⟨front, a, back, whole, ofKind, ⟨b, member, claimed⟩, fine⟩
    have repeated : again a := (claims.again_iff front a back whole).mpr
      ⟨b, member, claimed.trans (same a ofKind).symm⟩
    rcases served.behind front a back whole ofKind fine repeated with ⟨c, earlier, kindOf, ended⟩
    -- what was done in front of it was the first of the key
    rcases List.append_of_mem earlier with ⟨start, rest, rfl⟩
    have split : l = start ++ c :: (rest ++ a :: back) := by rw [whole]; simp
    have first := (claims.done_iff _ c _ split).mp ended
    refine unserved ⟨c, ?_, kindOf, first.2⟩
    rw [List.find?_eq_some_iff_append]
    refine ⟨by simpa using same c kindOf, start, rest ++ a :: back, split, fun b member => ?_⟩
    have other := first.1 b member
    rw [same c kindOf] at other
    simpa using other
  · intro condition
    -- in both cases a good entry means that the first one of the key is good
    have good_first : (∃ a ∈ l, kind a = true ∧ good a = true) →
        ∃ start a rest, l = start ++ a :: rest ∧ (∀ b ∈ start, key b ≠ k) ∧ kind a = true ∧
          good a = true := by
      rintro ⟨a, member, ofKind, fine⟩
      rcases condition with ⟨c, found, kindOf, fineToo⟩ | invalid
      · rcases List.find?_eq_some_iff_append.mp found with ⟨-, start, rest, whole, fresh⟩
        exact ⟨start, c, rest, whole, fun b inside => by simpa using fresh b inside, kindOf, fineToo⟩
      · rcases List.append_of_mem member with ⟨start, rest, whole⟩
        refine ⟨start, a, rest, whole, fun b inside claimed => ?_, ofKind, fine⟩
        exact invalid start a rest whole ofKind ⟨b, inside, claimed⟩ (sound a fine)
    constructor
    · intro some_good
      rcases good_first some_good with ⟨start, a, rest, whole, fresh, ofKind, fine⟩
      have one := claims.filter_done kind whole
        (fun b kindOf => (same b kindOf).trans (same a ofKind).symm)
        (fun b inside => by rw [same a ofKind]; exact fresh b inside) ofKind fine
      rw [one]
      rfl
    · intro front a back whole ofKind fine repeated
      rcases (claims.again_iff front a back whole).mp repeated with ⟨b, member, claimed⟩
      rw [same a ofKind] at claimed
      rcases condition with ⟨c, found, kindOf, good_c⟩ | invalid
      · -- the first entry of the key stands in front of every repetition
        have inFront : front.find? (fun b => decide (key b = k)) = some c := by
          cases early : front.find? fun b => decide (key b = k) with
          | none =>
            have absent := List.find?_eq_none.mp early b member
            exact absurd claimed (by simpa using absent)
          | some d =>
            rw [whole, List.find?_append, early] at found
            exact found
        rcases List.find?_eq_some_iff_append.mp inFront with ⟨-, start, rest, split, fresh⟩
        refine ⟨c, List.mem_of_find?_eq_some inFront, kindOf, ?_⟩
        have here : l = start ++ c :: (rest ++ a :: back) := by rw [whole, split]; simp
        refine (claims.done_iff _ c _ here).mpr ⟨fun b inside => ?_, good_c⟩
        rw [same c kindOf]
        simpa using fresh b inside
      · exact absurd fine (invalid front a back whole ofKind ⟨b, member, claimed⟩)

end ClaimsFirst

end Library
