import Mathlib.Data.List.Basic

/-!
# Checks

Checks that stop at the first failure, and the bind of fallible computations.
-/
namespace Library.Checks

variable {ε α β : Type}

theorem bind_eq_ok {x : Except ε α} {f : α → Except ε β} {b : β} :
    (x >>= f) = .ok b ↔ ∃ a, x = .ok a ∧ f a = .ok b := by
  cases x with
  | error e => exact ⟨nofun, fun ⟨_, absent, _⟩ => nomatch absent⟩
  | ok a =>
    refine ⟨fun found => ⟨a, rfl, found⟩, ?_⟩
    rintro ⟨_, here, found⟩
    cases here
    exact found

theorem then_eq_ok {x : Except ε Unit} {y : Except ε β} {b : β} :
    (x >>= fun _ => y) = .ok b ↔ x = .ok () ∧ y = .ok b := by
  rw [bind_eq_ok]
  exact ⟨fun ⟨_, first, second⟩ => ⟨first, second⟩, fun ⟨first, second⟩ => ⟨(), first, second⟩⟩

/-- A loop of checks passes when each of its checks does. -/
theorem forM_eq_ok {check : α → Except ε Unit} {items : List α} :
    items.forM check = .ok () ↔ ∀ item ∈ items, check item = .ok () := by
  induction items with
  | nil => simp [pure, Except.pure]
  | cons item items ih =>
    change (check item >>= fun _ => items.forM check) = .ok () ↔ _
    rw [then_eq_ok, ih, List.forall_mem_cons]

theorem guard_eq_ok {condition : Prop} [Decidable condition] {e : ε} :
    (if condition then .ok () else .error e : Except ε Unit) = .ok () ↔ condition := by
  split
  next holds => exact ⟨fun _ => holds, fun _ => rfl⟩
  next fails => exact ⟨nofun, fun holds => absurd holds fails⟩

theorem mapError_eq_ok {δ : Type} {x : Except ε α} {f : ε → δ} {a : α} :
    x.mapError f = .ok a ↔ x = .ok a := by
  cases x <;> simp [Except.mapError]

theorem foldlM_cons_ok {step : β → α → Except ε β} {item : α} {items : List α} {state next last : β}
    (turn : step state item = .ok next) (rest : items.foldlM step next = .ok last) :
    (item :: items).foldlM step state = .ok last := by
  rw [List.foldlM_cons, turn]
  exact rest

theorem foldlM_append_ok {step : β → α → Except ε β} {items more : List α} {state next last : β}
    (first : items.foldlM step state = .ok next) (rest : more.foldlM step next = .ok last) :
    (items ++ more).foldlM step state = .ok last := by
  rw [List.foldlM_append, first]
  exact rest

/-- A traversal succeeds when each of its steps does, with their results in order. -/
theorem mapM_eq_ok {f : α → Except ε β} {items : List α} {results : List β} :
    items.mapM f = .ok results ↔ items.map f = results.map .ok := by
  induction items generalizing results with
  | nil => cases results <;> simp [pure, Except.pure]
  | cons item items ih =>
    rw [List.mapM_cons, bind_eq_ok, List.map_cons]
    constructor
    · rintro ⟨first, here, later⟩
      obtain ⟨rest, there, same⟩ := bind_eq_ok.mp later
      cases same
      rw [here, ih.mp there, List.map_cons]
    · intro pointwise
      cases results with
      | nil => cases pointwise
      | cons first rest =>
        obtain ⟨here, there⟩ := List.cons.inj pointwise
        exact ⟨first, here, bind_eq_ok.mpr ⟨rest, ih.mpr there, rfl⟩⟩

/-- A traversal whose steps all succeed has results. -/
theorem exists_map_ok {f : α → Except ε β} {items : List α} :
    (∃ results : List β, items.map f = results.map .ok) ↔ ∀ item ∈ items, ∃ result, f item = .ok result := by
  induction items with
  | nil => exact iff_of_true ⟨[], rfl⟩ nofun
  | cons item items ih =>
    rw [List.forall_mem_cons, ← ih]
    constructor
    · rintro ⟨results, pointwise⟩
      cases results with
      | nil => cases pointwise
      | cons first rest =>
        obtain ⟨here, there⟩ := List.cons.inj pointwise
        exact ⟨⟨first, here⟩, rest, there⟩
    · rintro ⟨⟨first, here⟩, rest, there⟩
      exact ⟨first :: rest, by rw [List.map_cons, here, there, List.map_cons]⟩

end Library.Checks
