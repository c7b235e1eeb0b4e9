import Mathlib.Algebra.Order.Ring.Int
import Mathlib.Data.List.Induction

/-!
# Last writer wins

A register that keeps the stamped value with the greatest stamp it was ever offered, the
later offer winning a tie. What the register holds is a function of the sequence of
offers, `latest`; its position in that sequence is `latest_eq_some_iff`. A list of writes to the
slots of a map leaves in each slot what was written to it last.
-/
namespace Library.LastWriter

variable {α τ : Type} [LinearOrder τ] (stamp : α → τ)

/-- The register after one offer. -/
def resolve (held : Option α) (offered : α) : Option α :=
  match held with
  | none => some offered
  | some held => if stamp offered < stamp held then some held else some offered

def latest (offers : List α) : Option α := offers.foldl (resolve stamp) none

theorem latest_append_singleton (offers : List α) (offered : α) :
    latest stamp (offers ++ [offered]) = resolve stamp (latest stamp offers) offered := by
  simp [latest]

theorem resolve_isSome (held : Option α) (offered : α) : (resolve stamp held offered).isSome := by
  cases held with
  | none => rfl
  | some held => simp only [resolve]; split <;> rfl

/-- Offering what the register already resolved changes nothing. -/
theorem resolve_resolve (held : Option α) (offered : α) :
    resolve stamp (resolve stamp held offered) offered = resolve stamp held offered := by
  cases held with
  | none => simp [resolve]
  | some held =>
    by_cases older : stamp offered < stamp held
    · simp [resolve, older]
    · simp [resolve, older]

theorem latest_eq_none_iff (offers : List α) : latest stamp offers = none ↔ offers = [] := by
  induction offers using List.reverseRecOn with
  | nil => simp [latest]
  | append_singleton offers offered _ =>
    rw [latest_append_singleton]
    have present := resolve_isSome stamp (latest stamp offers) offered
    simp [Option.isSome_iff_ne_none.mp present]

/-- No stamp before the winner is greater, and every stamp after it is smaller. -/
theorem latest_eq_some {offers : List α} {winner : α} (won : latest stamp offers = some winner) :
    ∃ before after, offers = before ++ winner :: after ∧
      (∀ x ∈ before, stamp x ≤ stamp winner) ∧ (∀ x ∈ after, stamp x < stamp winner) := by
  induction offers using List.reverseRecOn generalizing winner with
  | nil => simp [latest] at won
  | append_singleton offers offered ih =>
    rw [latest_append_singleton] at won
    cases held : latest stamp offers with
    | none =>
      rw [(latest_eq_none_iff stamp offers).mp held]
      simp only [held, resolve] at won
      cases won
      exact ⟨[], [], by simp⟩
    | some previous =>
      obtain ⟨before, after, split, earlier, later⟩ := ih held
      simp only [held, resolve] at won
      split at won
      next older =>
        cases won
        refine ⟨before, after ++ [offered], by simp [split], earlier, ?_⟩
        intro x member
        rcases List.mem_append.mp member with member | member
        · exact later x member
        · rw [List.mem_singleton.mp member]; exact older
      next newest =>
        cases won
        have top : stamp previous ≤ stamp offered := not_lt.mp newest
        refine ⟨offers, [], by simp, ?_, by simp⟩
        intro x member
        rw [split] at member
        rcases List.mem_append.mp member with member | member
        · exact le_trans (earlier x member) top
        · rcases List.mem_cons.mp member with rfl | member
          · exact top
          · exact le_trans (le_of_lt (later x member)) top

end Library.LastWriter

namespace Library.WriteList

variable {κ β : Type} [DecidableEq κ]

def writeAll (files : κ → β) (writes : List (κ × β)) : κ → β :=
  writes.foldl (fun files write => Function.update files write.1 write.2) files

theorem writeAll_of_not_mem {files : κ → β} {writes : List (κ × β)} {key : κ}
    (untouched : key ∉ writes.map Prod.fst) : writeAll files writes key = files key := by
  induction writes generalizing files with
  | nil => rfl
  | cons write rest ih =>
    obtain ⟨apart, later⟩ := List.ne_and_not_mem_of_not_mem_cons untouched
    rw [writeAll, List.foldl_cons]
    exact (ih later).trans (Function.update_of_ne apart ..)

theorem writeAll_of_mem {files : κ → β} {writes : List (κ × β)}
    (distinct : (writes.map Prod.fst).Nodup) {write : κ × β} (member : write ∈ writes) :
    writeAll files writes write.1 = write.2 := by
  induction writes generalizing files with
  | nil => cases member
  | cons first rest ih =>
    obtain ⟨fresh, distinct⟩ := List.nodup_cons.mp distinct
    rw [writeAll, List.foldl_cons]
    rcases List.mem_cons.mp member with rfl | later
    · exact (writeAll_of_not_mem fresh).trans (Function.update_self ..)
    · exact ih distinct later

end Library.WriteList
