/-!
# Runs of a transition system

States reached from a starting state by steps that all meet a guard, and the two rules the
run proofs use: an invariant of one step holds along a run, and a run may be cut at any
state it passes. And nodes within so many links of one another.
-/
namespace Library

variable {σ ε : Type}

/-- `Reachable step guard start s`: some run from `start` ends in `s` and takes each of its
steps from a state and with an event that meet `guard`. -/
inductive Reachable (step : σ → ε → σ → Prop) (guard : σ → ε → Prop) (start : σ) : σ → Prop
  | start : Reachable step guard start start
  | step {s s' : σ} {e : ε} (before : Reachable step guard start s) (met : guard s e)
      (taken : step s e s') : Reachable step guard start s'

namespace Reachable

variable {step : σ → ε → σ → Prop} {guard : σ → ε → Prop} {start s : σ}

/-- What holds at the start and is preserved by every guarded step holds in every state
reached. -/
theorem invariant {motive : σ → Prop} (reached : Reachable step guard start s)
    (initial : motive start)
    (preserved : ∀ s e s', motive s → guard s e → step s e s' → motive s') : motive s := by
  induction reached with
  | start => exact initial
  | step _ met taken ih => exact preserved _ _ _ ih met taken

/-- As `invariant`, for an invariant whose step needs another one already known to hold. -/
theorem invariant_of {known motive : σ → Prop} (reached : Reachable step guard start s)
    (established : ∀ s, Reachable step guard start s → known s) (initial : motive start)
    (preserved : ∀ s e s', known s → motive s → guard s e → step s e s' → motive s') : motive s := by
  induction reached with
  | start => exact initial
  | step before met taken ih => exact preserved _ _ _ (established _ before) ih met taken

theorem mono {weaker : σ → ε → Prop} (reached : Reachable step guard start s)
    (implies : ∀ s e, guard s e → weaker s e) : Reachable step weaker start s := by
  induction reached with
  | start => exact .start
  | step _ met taken ih => exact .step ih (implies _ _ met) taken

end Reachable

/-! ### Runs of a step function -/

/-- Take the events in order; `none` when one of them is not possible. -/
def runEvents (step : σ → ε → Option σ) : σ → List ε → Option σ
  | s, [] => some s
  | s, e :: rest => (step s e).bind fun s' => runEvents step s' rest

/-- A run of the step function, from a state already reached and with events that meet the
guard in any state, reaches its last state. -/
theorem Reachable.run {step : σ → ε → Option σ} {guard : σ → ε → Prop} {start s s' : σ}
    {events : List ε} (before : Reachable (fun s e s' => step s e = some s') guard start s)
    (met : ∀ e ∈ events, ∀ s, guard s e) (ran : runEvents step s events = some s') :
    Reachable (fun s e s' => step s e = some s') guard start s' := by
  induction events generalizing s with
  | nil =>
    cases ran
    exact before
  | cons e rest ih =>
    obtain ⟨next, taken, ran⟩ := Option.bind_eq_some_iff.mp ran
    exact ih (.step before (met e List.mem_cons_self s) taken)
      (fun e member => met e (List.mem_cons_of_mem _ member)) ran

/-- As `run`, where each step is checked to meet the guard in the state it is taken from. -/
theorem Reachable.run_checked {step : σ → ε → Option σ} {guard : σ → ε → Prop}
    {check : σ → ε → Bool} {start s s' : σ} {events : List ε}
    (before : Reachable (fun s e s' => step s e = some s') guard start s)
    (met : ∀ s e, check s e = true → guard s e)
    (ran : runEvents (fun s e => if check s e then step s e else none) s events = some s') :
    Reachable (fun s e s' => step s e = some s') guard start s' := by
  induction events generalizing s with
  | nil =>
    cases ran
    exact before
  | cons e rest ih =>
    obtain ⟨next, taken, ran⟩ := Option.bind_eq_some_iff.mp ran
    obtain ⟨checked, taken⟩ := Option.ite_none_right_eq_some.mp taken
    exact ih (.step before (met s e checked) taken) ran

/-- The states that a run passes, each with the event taken from it. -/
def visited (step : σ → ε → Option σ) : σ → List ε → List (σ × ε)
  | _, [] => []
  | s, e :: rest => (s, e) :: (step s e).elim [] fun s' => visited step s' rest

theorem visited_cons {step : σ → ε → Option σ} {s next : σ} {e : ε} (taken : step s e = some next) (rest : List ε) :
    visited step s (e :: rest) = (s, e) :: visited step next rest := by
  rw [visited, taken]
  rfl

theorem runEvents_preserves {step : σ → ε → Option σ} {motive : σ → Prop} {allowed : σ → ε → Prop} {s s' : σ}
    {events : List ε} (preserved : ∀ s e s', motive s → allowed s e → step s e = some s' → motive s')
    (initial : motive s) (ran : runEvents step s events = some s')
    (all : ∀ pair ∈ visited step s events, allowed pair.1 pair.2) : motive s' := by
  induction events generalizing s with
  | nil =>
    cases ran
    exact initial
  | cons e rest ih =>
    obtain ⟨next, taken, ran⟩ := Option.bind_eq_some_iff.mp ran
    rw [visited_cons taken] at all
    obtain ⟨here, later⟩ := List.forall_mem_cons.mp all
    exact ih (preserved s e next initial here taken) ran later

/-- A run is good while its steps are clean, and broken for good from the first one that is
not. -/
theorem runEvents_good_or_broken {step : σ → ε → Option σ} {good broken : σ → Prop} {allowed clean : σ → ε → Prop}
    {s s' : σ} {events : List ε}
    (keeps : ∀ s e s', good s → allowed s e → clean s e → step s e = some s' → good s')
    (breaks : ∀ s e s', good s → allowed s e → ¬ clean s e → step s e = some s' → broken s')
    (stays : ∀ s e s', broken s → allowed s e → step s e = some s' → broken s')
    (initial : good s) (ran : runEvents step s events = some s')
    (all : ∀ pair ∈ visited step s events, allowed pair.1 pair.2) :
    ((∀ pair ∈ visited step s events, clean pair.1 pair.2) → good s') ∧
      ((¬ ∀ pair ∈ visited step s events, clean pair.1 pair.2) → broken s') := by
  induction events generalizing s with
  | nil =>
    cases ran
    exact ⟨fun _ => initial, fun unclean => absurd nofun unclean⟩
  | cons e rest ih =>
    obtain ⟨next, taken, ran⟩ := Option.bind_eq_some_iff.mp ran
    rw [visited_cons taken] at all ⊢
    obtain ⟨here, later⟩ := List.forall_mem_cons.mp all
    rw [List.forall_mem_cons]
    by_cases first : clean s e
    · obtain ⟨kept, lost⟩ := ih (keeps s e next initial here first taken) ran later
      exact ⟨fun both => kept both.2, fun unclean => lost fun others => unclean ⟨first, others⟩⟩
    · have broke := runEvents_preserves stays (breaks s e next initial here first taken) ran later
      exact ⟨fun both => absurd both.1 first, fun _ => broke⟩

end Library

namespace Library

variable {α : Type}

inductive Within (link : α → α → Prop) (allowed : α → Prop) : Nat → α → α → Prop
  | here {n : Nat} {a : α} (may : allowed a) : Within link allowed n a a
  | link {n : Nat} {a b c : α} (may : allowed a) (edge : link a b)
      (rest : Within link allowed n b c) : Within link allowed (n + 1) a c

namespace Within

variable {link : α → α → Prop} {allowed wider : α → Prop} {n m : Nat} {a b : α}

theorem mono (within : Within link allowed n a b) (more : n ≤ m) : Within link allowed m a b := by
  induction within generalizing m with
  | here may => exact .here may
  | link may edge _ ih =>
    obtain ⟨m, rfl⟩ := Nat.exists_eq_add_of_le' more
    exact .link may edge (ih (Nat.le_add_left _ _))

theorem widen (within : Within link allowed n a b) (implies : ∀ c, allowed c → wider c) :
    Within link wider n a b := by
  induction within with
  | here may => exact .here (implies _ may)
  | link may edge _ ih => exact .link (implies _ may) edge ih

theorem eq_of_zero (within : Within link allowed 0 a b) : a = b := by
  cases within
  rfl

theorem eq_or_link (within : Within link allowed (n + 1) a b) :
    a = b ∨ ∃ c, link a c ∧ Within link allowed n c b := by
  cases within with
  | here => exact .inl rfl
  | link _ edge rest => exact .inr ⟨_, edge, rest⟩

end Within

end Library
