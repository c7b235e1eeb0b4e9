/-!
# Bounded retry loops

A loop makes attempts numbered from 0, hands a state from one to the next and records what
they did. An attempt ends the loop or asks for another one; once the budget is used up the
last state decides.
-/
namespace Library

variable {σ α ρ : Type}

/-- What an attempt comes to. -/
inductive Turn (σ ρ : Type) where
  | done (result : ρ)
  | again (state : σ)
  deriving DecidableEq, Repr

namespace Retry

/-- So many attempts remain, and the next has this index. -/
def loop (attempt : Nat → σ → List α × Turn σ ρ) (giveUp : σ → ρ) :
    (remaining index : Nat) → σ → List α × ρ
  | 0, _, state => ([], giveUp state)
  | remaining + 1, index, state =>
    match attempt index state with
    | (acts, .done result) => (acts, result)
    | (acts, .again next) =>
      let (later, result) := loop attempt giveUp remaining (index + 1) next
      (acts ++ later, result)

/-- Every attempt before this one asked for another: the state they leave, and what they
did. -/
inductive Before (attempt : Nat → σ → List α × Turn σ ρ) (start : σ) : Nat → σ → List α → Prop
  | start : Before attempt start 0 start []
  | again {index : Nat} {state next : σ} {trace acts : List α}
      (before : Before attempt start index state trace)
      (asked : attempt index state = (acts, .again next)) :
      Before attempt start (index + 1) next (trace ++ acts)

variable {attempt : Nat → σ → List α × Turn σ ρ} {giveUp : σ → ρ} {start state : σ}
  {trace : List α} {index : Nat}

/-- What holds at the start and is kept by every attempt that asks for another one. -/
theorem Before.invariant {motive : Nat → σ → List α → Prop}
    (before : Before attempt start index state trace) (initial : motive 0 start [])
    (kept : ∀ index state trace acts next, motive index state trace →
      attempt index state = (acts, .again next) → motive (index + 1) next (trace ++ acts)) :
    motive index state trace := by
  induction before with
  | start => exact initial
  | again _ asked ih => exact kept _ _ _ _ _ ih asked

theorem loop_from (giveUp : σ → ρ) (remaining : Nat)
    (before : Before attempt start index state trace) :
    (∃ last < index + remaining, ∃ state' trace' acts result,
      Before attempt start last state' trace' ∧ attempt last state' = (acts, .done result) ∧
      (trace ++ (loop attempt giveUp remaining index state).1,
        (loop attempt giveUp remaining index state).2) = (trace' ++ acts, result)) ∨
    ∃ state' trace', Before attempt start (index + remaining) state' trace' ∧
      (trace ++ (loop attempt giveUp remaining index state).1,
        (loop attempt giveUp remaining index state).2) = (trace', giveUp state') := by
  induction remaining generalizing index state trace with
  | zero => exact .inr ⟨state, trace, before, by simp [loop]⟩
  | succ remaining ih =>
    rcases taken : attempt index state with ⟨acts, turn⟩
    cases turn with
    | done result =>
      refine .inl ⟨index, by omega, state, trace, acts, result, before, taken, ?_⟩
      simp only [loop, taken]
    | again next =>
      -- the rest of the loop starts one attempt later, with a longer trace
      have rest := ih (before.again taken)
      rw [Nat.add_right_comm index 1 remaining] at rest
      simpa only [loop, taken, List.append_assoc, Nat.add_assoc] using rest

/-- The loop ends on the first attempt that asks for no other, or after the last one. -/
theorem loop_cases (attempt : Nat → σ → List α × Turn σ ρ) (giveUp : σ → ρ) (n : Nat) (start : σ) :
    (∃ last < n, ∃ state trace acts result, Before attempt start last state trace ∧
      attempt last state = (acts, .done result) ∧
      loop attempt giveUp n 0 start = (trace ++ acts, result)) ∨
    ∃ state trace, Before attempt start n state trace ∧
      loop attempt giveUp n 0 start = (trace, giveUp state) := by
  have all := loop_from giveUp n (Before.start : Before attempt start 0 start [])
  simpa only [List.nil_append, Nat.zero_add] using all

end Retry

end Library
