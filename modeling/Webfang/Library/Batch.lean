import Mathlib.Data.List.Basic

/-!
# Batches

A batch takes effect statement by statement and stops at the first one that is refused; what
came before it stays done, and the outcome keeps which statements changed the state. A call on a
whole batch can be repeated on the two halves where it fails, down to the single elements.
-/
namespace Library.Batch

variable {σ ι ε : Type}

/-- `result` is the sum of the counts of the statements, or the refusal. -/
structure Outcome (σ ι ε : Type) where
  state : σ
  changed : List ι
  result : Except ε Nat

def Outcome.failed (outcome : Outcome σ ι ε) : Bool :=
  match outcome.result with
  | .error _ => true
  | .ok _ => false

/-- `second` takes over the state and the count of `first`, if that one went through. -/
def Outcome.andThen (first : Outcome σ ι ε) (second : σ → Outcome σ ι ε) : Outcome σ ι ε :=
  match first.result with
  | .error _ => first
  | .ok n =>
    let next := second first.state
    ⟨next.state, first.changed ++ next.changed, next.result.map (n + ·)⟩

def Outcome.mapError {δ : Type} (f : ε → δ) (outcome : Outcome σ ι ε) : Outcome σ ι δ :=
  ⟨outcome.state, outcome.changed, outcome.result.mapError f⟩

section Run

variable [DecidableEq σ] (exec : ι → σ → Except ε (σ × Nat))

def single (statement : ι) (s : σ) : Outcome σ ι ε :=
  match exec statement s with
  | .error e => ⟨s, [], .error e⟩
  | .ok (s', n) => ⟨s', if s' = s then [] else [statement], .ok n⟩

def run : List ι → σ → Outcome σ ι ε
  | [], s => ⟨s, [], .ok 0⟩
  | statement :: rest, s => (single exec statement s).andThen (run rest)

/-- One of the statements is refused, and all before it leave the state as it was. -/
def Refuses (s : σ) : List ι → Prop
  | [] => False
  | statement :: rest =>
    match exec statement s with
    | .error _ => True
    | .ok (s', _) => s' = s ∧ Refuses s rest

/-- All statements that are reached leave the state as it was. -/
def Idle (s : σ) : List ι → Prop
  | [] => True
  | statement :: rest =>
    match exec statement s with
    | .error _ => True
    | .ok (s', _) => s' = s ∧ Idle s rest

end Run

/-! ### Quiet outcomes -/

@[simp] theorem mapError_changed {δ : Type} {f : ε → δ} {outcome : Outcome σ ι ε} :
    (outcome.mapError f).changed = outcome.changed := rfl

@[simp] theorem mapError_failed {δ : Type} {f : ε → δ} {outcome : Outcome σ ι ε} :
    (outcome.mapError f).failed = outcome.failed := by
  rcases outcome with ⟨state, changed, e | n⟩ <;> rfl

theorem andThen_of_failed {first : Outcome σ ι ε} (failed : first.failed = true)
    (second : σ → Outcome σ ι ε) : first.andThen second = first := by
  unfold Outcome.failed at failed
  unfold Outcome.andThen
  split at failed
  next => rfl
  next => cases failed

theorem andThen_changed {first : Outcome σ ι ε} (passed : first.failed = false)
    (second : σ → Outcome σ ι ε) :
    (first.andThen second).changed = first.changed ++ (second first.state).changed ∧
      (first.andThen second).state = (second first.state).state ∧
      (first.andThen second).failed = (second first.state).failed := by
  rcases first with ⟨state, changed, e | n⟩
  · cases passed
  · refine ⟨rfl, rfl, ?_⟩
    unfold Outcome.andThen Outcome.failed
    dsimp only
    cases (second state).result <;> rfl

/-- Of two parts that end where they began unless they change the state, so does the whole. -/
theorem andThen_state_of_quiet {s : σ} {first : Outcome σ ι ε} {second : σ → Outcome σ ι ε}
    (here : first.changed = [] → first.state = s)
    (later : ∀ s, (second s).changed = [] → (second s).state = s)
    (quiet : (first.andThen second).changed = []) : (first.andThen second).state = s := by
  cases failed : first.failed with
  | true =>
    rw [andThen_of_failed failed] at quiet ⊢
    exact here quiet
  | false =>
    obtain ⟨changed, state, -⟩ := andThen_changed failed second
    rw [changed, List.append_eq_nil_iff] at quiet
    rw [state, later _ quiet.2]
    exact here quiet.1

section Run

variable [DecidableEq σ] {exec : ι → σ → Except ε (σ × Nat)} {s : σ}

theorem single_state_of_quiet {statement : ι} (quiet : (single exec statement s).changed = []) :
    (single exec statement s).state = s := by
  unfold single at quiet ⊢
  split
  next => rfl
  next s' n done =>
    simp only [done] at quiet
    split at quiet
    next same => exact same
    next => cases quiet

variable (exec) in
/-- All the statements go through, from the first state to the second, and count `n` together. -/
inductive GoesThrough : List ι → σ → σ → Nat → Prop
  | nil (s : σ) : GoesThrough [] s s 0
  | cons {statement : ι} {rest : List ι} {s s' s'' : σ} {n m : Nat}
      (done : exec statement s = .ok (s', n)) (later : GoesThrough rest s' s'' m) :
      GoesThrough (statement :: rest) s s'' (n + m)

theorem GoesThrough.run_eq {statements : List ι} {s' : σ} {n : Nat}
    (through : GoesThrough exec statements s s' n) :
    (run exec statements s).state = s' ∧ (run exec statements s).result = .ok n := by
  induction through with
  | nil => exact ⟨rfl, rfl⟩
  | cons done _ ih =>
    simp only [run, single, done, Outcome.andThen, ih]
    exact ⟨trivial, rfl⟩

theorem run_state_of_quiet {statements : List ι} (quiet : (run exec statements s).changed = []) :
    (run exec statements s).state = s := by
  induction statements generalizing s with
  | nil => rfl
  | cons statement rest ih =>
    exact andThen_state_of_quiet single_state_of_quiet (fun _ quiet => ih quiet) quiet

/-- A batch changes nothing when every statement it reaches changes nothing. -/
theorem run_quiet_iff {statements : List ι} :
    (run exec statements s).changed = [] ↔ Idle exec s statements := by
  induction statements with
  | nil => exact ⟨fun _ => trivial, fun _ => rfl⟩
  | cons statement rest ih =>
    unfold run Idle single
    cases done : exec statement s with
    | error e => exact ⟨fun _ => trivial, fun _ => rfl⟩
    | ok next =>
      obtain ⟨s', n⟩ := next
      simp only [Outcome.andThen, List.append_eq_nil_iff]
      by_cases same : s' = s
      · subst same
        simpa using ih
      · simp [same]

/-- A batch changes nothing and fails when a statement is refused before any has had an
effect. -/
theorem run_refused_iff {statements : List ι} :
    ((run exec statements s).changed = [] ∧ (run exec statements s).failed = true) ↔
      Refuses exec s statements := by
  induction statements with
  | nil => exact ⟨fun quiet => (nomatch quiet.2), False.elim⟩
  | cons statement rest ih =>
    unfold run Refuses single
    cases done : exec statement s with
    | error e => exact ⟨fun _ => trivial, fun _ => ⟨rfl, rfl⟩⟩
    | ok next =>
      obtain ⟨s', n⟩ := next
      have passed : (⟨s', if s' = s then [] else [statement], .ok n⟩ : Outcome σ ι ε).failed = false := rfl
      obtain ⟨changed, -, failed⟩ := andThen_changed passed (run exec rest)
      dsimp only
      rw [changed, failed, List.append_eq_nil_iff]
      by_cases same : s' = s
      · subst same
        simpa using ih
      · simp [same]

end Run

end Library.Batch

namespace Library

variable {α β ε : Type} {run : List α → Except ε (List β)} {batch : List α} {out : List β} {e : ε}

theorem take_half_shorter (more : 1 < batch.length) :
    (batch.take (batch.length / 2)).length < batch.length := by
  rw [List.length_take]
  omega

theorem drop_half_shorter (more : 1 < batch.length) :
    (batch.drop (batch.length / 2)).length < batch.length := by
  rw [List.length_drop]
  omega

/-- A batch call with a retry on the halves of a batch that fails. -/
def bisect (run : List α → Except ε (List β)) (batch : List α) : Except ε (List β) :=
  match run batch with
  | .ok out => .ok out
  | .error e =>
    if _more : 1 < batch.length then
      match bisect run (batch.take (batch.length / 2)) with
      | .error left => .error left
      | .ok left =>
        match bisect run (batch.drop (batch.length / 2)) with
        | .error right => .error right
        | .ok right => .ok (left ++ right)
    else .error e
termination_by batch.length
decreasing_by
  · exact take_half_shorter _more
  · exact drop_half_shorter _more

def AnsweredInParts (run : List α → Except ε (List β)) (batch : List α) (out : List β) : Prop :=
  ∃ parts : List (List α × List β), parts.flatMap Prod.fst = batch ∧ parts.flatMap Prod.snd = out ∧
    ∀ part ∈ parts, run part.1 = .ok part.2

theorem AnsweredInParts.single (answer : run batch = .ok out) : AnsweredInParts run batch out := by
  refine ⟨[(batch, out)], by simp, by simp, fun part member => ?_⟩
  rw [List.mem_singleton.mp member]
  exact answer

theorem AnsweredInParts.append {front back : List α} {left right : List β}
    (before : AnsweredInParts run front left) (behind : AnsweredInParts run back right) :
    AnsweredInParts run (front ++ back) (left ++ right) := by
  rcases before with ⟨first, rfl, rfl, answered⟩
  rcases behind with ⟨second, rfl, rfl, later⟩
  refine ⟨first ++ second, List.flatMap_append, List.flatMap_append, fun part member => ?_⟩
  rcases List.mem_append.mp member with here | there
  · exact answered part here
  · exact later part there

theorem AnsweredInParts.length (answered : AnsweredInParts run batch out)
    (each : ∀ part answer, run part = .ok answer → answer.length = part.length) :
    out.length = batch.length := by
  rcases answered with ⟨parts, rfl, rfl, ran⟩
  induction parts with
  | nil => rfl
  | cons part rest ih =>
    have later := ih fun other member => ran other (List.mem_cons_of_mem _ member)
    rw [List.flatMap_cons, List.flatMap_cons, List.length_append, List.length_append,
      each _ _ (ran part List.mem_cons_self), later]

theorem bisect_ok (done : bisect run batch = .ok out) : AnsweredInParts run batch out := by
  fun_induction bisect run batch generalizing out with
  | case1 batch answer answered =>
    cases done
    exact .single answered
  | case2 batch e failed more left split ihLeft => cases done
  | case3 batch e failed more left split right other ihLeft ihRight => cases done
  | case4 batch e failed more left split right other ihLeft ihRight =>
    cases done
    rw [← List.take_append_drop (batch.length / 2) batch]
    exact (ihLeft split).append (ihRight other)
  | case5 batch e failed few => cases done

theorem bisect_error (failed : bisect run batch = .error e) :
    (∃ a ∈ batch, run [a] = .error e) ∨ batch = [] ∧ run [] = .error e := by
  fun_induction bisect run batch with
  | case1 batch answer answered => cases failed
  | case2 batch e' first more left split ih =>
    cases failed
    rcases ih split with ⟨a, member, alone⟩ | ⟨none, -⟩
    · exact .inl ⟨a, List.mem_of_mem_take member, alone⟩
    · have half := congrArg List.length none
      rw [List.length_take, List.length_nil] at half
      omega
  | case3 batch e' first more left split right other ihLeft ihRight =>
    cases failed
    rcases ihRight other with ⟨a, member, alone⟩ | ⟨none, -⟩
    · exact .inl ⟨a, List.mem_of_mem_drop member, alone⟩
    · have half := congrArg List.length none
      rw [List.length_drop, List.length_nil] at half
      omega
  | case4 batch e' first more left split right other ihLeft ihRight => cases failed
  | case5 batch e' first few =>
    cases failed
    match batch with
    | [] => exact .inr ⟨rfl, first⟩
    | [a] => exact .inl ⟨a, List.mem_cons_self, first⟩
    | a :: b :: rest => exact absurd (by simp) few

end Library
