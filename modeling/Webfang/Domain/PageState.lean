import Mathlib.Data.UInt
import Webfang.Library.Text

/-!
# Page lifecycle

The persisted per-URL record (`domain/persistence.rs`), the eight-state page lifecycle
(`domain/page_state/status.rs`) and the typed machine over it
(`domain/page_state/typed.rs`). A status is the only machine state that is serialized,
so a loaded record can be in any of them: `reconcile` is the single check between the
persisted record and the typed machine.
-/
namespace Webfang.Domain

open Library

inductive PageStatus where
  | discovered
  | queued
  | fetching
  | fetched
  | extracted
  | processed
  | exported
  | committed
  deriving DecidableEq, Repr

/-- `run_id` of the records the version-1 migration creates. -/
def migratedV1RunId : String := "migrated-v1"

inductive ErrorClass where
  | transientRetriable
  | transientBackoff
  | permanentFatal
  | internalFatal
  | domainRecoverable
  deriving DecidableEq, Repr

structure LastError where
  errorClass : ErrorClass
  message : String
  deriving DecidableEq, Repr

/-- The nine persisted fields. `attempts` is a `u32` and wraps in a release build. -/
structure RawRecord where
  url : String
  canonicalUrl : String
  runId : String
  contentHash : Option String
  attempts : UInt32
  status : PageStatus
  lastError : Option LastError
  outputLocation : Option String
  updatedAt : Int64
  deriving DecidableEq

/-- Keyed by canonical URL. -/
abbrev DomainRecords := Std.ExtTreeMap String RawRecord

inductive InvalidRecord where
  | emptyUrl
  | emptyCanonicalUrl
  deriving DecidableEq, Repr

/-- The validated constructor every writer of a new record passes through. -/
def RawRecord.newDiscovered (url canonicalUrl runId : String) (updatedAt : Int64) :
    Except InvalidRecord RawRecord :=
  if Text.isBlank url then .error .emptyUrl
  else if Text.isBlank canonicalUrl then .error .emptyCanonicalUrl
  else .ok {
    url, canonicalUrl, runId, updatedAt
    contentHash := none
    attempts := 0
    status := .discovered
    lastError := none
    outputLocation := none }

def RawRecord.isMigratedV1 (record : RawRecord) : Bool := record.runId == migratedV1RunId

inductive ReconcileError where
  | statusMismatch (expected found : PageStatus)
  | missingOutputLocation (status : PageStatus)
  | missingContentHash (status : PageStatus)
  | committedWithLastError
  | committedWithZeroAttempts
  deriving DecidableEq, Repr

def PageStatus.isTerminal : PageStatus → Bool
  | .exported | .committed => true
  | _ => false

/-- `reconcile::validate`: the load-time table for one target state. -/
def validate (record : RawRecord) (target : PageStatus) : Except ReconcileError Unit :=
  if record.status ≠ target then .error (.statusMismatch target record.status)
  else if target.isTerminal && !record.isMigratedV1 && record.outputLocation.isNone then
    .error (.missingOutputLocation target)
  else if target.isTerminal && !record.isMigratedV1 && record.contentHash.isNone then
    .error (.missingContentHash target)
  else if target = .committed && record.lastError.isSome then .error .committedWithLastError
  else if target = .committed && record.attempts < 1 then .error .committedWithZeroAttempts
  else .ok ()

/-- A record whose lifecycle position is tracked in the type. The marker is a phantom:
it is the transitions below, not the payload, that only exist at their source state. -/
structure Stateful (state : PageStatus) where
  record : RawRecord

namespace Stateful

variable {state : PageStatus}

/-- Every move writes the target status, so the field never lags behind the type. -/
def advance (target : PageStatus) (s : Stateful state) : Stateful target :=
  ⟨{ s.record with status := target }⟩

def reconcile (state : PageStatus) (record : RawRecord) : Except ReconcileError (Stateful state) :=
  match validate record state with
  | .ok () => .ok ⟨record⟩
  | .error e => .error e

/-- `record_mut`: payload fields change, the state does not. -/
def modify (f : RawRecord → RawRecord) (s : Stateful state) : Stateful state := ⟨f s.record⟩

def queue (s : Stateful .discovered) : Stateful .queued := s.advance .queued
def startFetch (s : Stateful .queued) : Stateful .fetching := s.advance .fetching
def fetched (s : Stateful .fetching) : Stateful .fetched := s.advance .fetched
def extracted (s : Stateful .fetched) : Stateful .extracted := s.advance .extracted
def processed (s : Stateful .extracted) : Stateful .processed := s.advance .processed
def exportFlushed (s : Stateful .processed) : Stateful .exported := s.advance .exported
def commit (s : Stateful .exported) : Stateful .committed := s.advance .committed

@[simp] theorem record_modify (f : RawRecord → RawRecord) (s : Stateful state) :
    (s.modify f).record = f s.record := rfl

@[simp] theorem record_commit (s : Stateful .exported) :
    s.commit.record = { s.record with status := .committed } := rfl

theorem record_of_reconcile {record : RawRecord} {s : Stateful state}
    (returned : reconcile state record = .ok s) : s.record = record := by
  unfold reconcile at returned
  split at returned
  · cases returned; rfl
  · cases returned

end Stateful

/-- Everything the load-time table asks of a record at `target`. -/
theorem validate_ok_iff (record : RawRecord) (target : PageStatus) :
    validate record target = .ok () ↔
      record.status = target ∧
      (target.isTerminal = true → record.isMigratedV1 = false →
        record.outputLocation.isSome ∧ record.contentHash.isSome) ∧
      (target = .committed → record.lastError = none ∧ record.attempts ≠ 0) := by
  by_cases here : record.status = target
  · simp only [validate, here, ne_eq, not_true_eq_false, if_false, true_and]
    split_ifs with noOutput noHash dirty idle
    · simp_all
    · simp_all
    · simp_all [Option.isSome_iff_ne_none]
    · simp_all
    · cases output : record.outputLocation <;> cases hash : record.contentHash <;> simp_all
  · simp [validate, here]

theorem reconcile_mismatch {record : RawRecord} {target : PageStatus}
    (other : record.status ≠ target) : (Stateful.reconcile target record).isOk = false := by
  have refused : validate record target = .error (.statusMismatch target record.status) := by
    rw [validate, if_pos other]
  rw [Stateful.reconcile, refused]
  rfl

/-- The states before `EXPORTED` ask nothing but the status itself. -/
theorem reconcile_nonterminal {record : RawRecord} {target : PageStatus}
    (here : record.status = target) (open_ : target.isTerminal = false) :
    Stateful.reconcile target record = .ok ⟨record⟩ := by
  have passes : validate record target = .ok () := by
    rw [validate_ok_iff]
    refine ⟨here, ?_, ?_⟩
    · intro terminal
      rw [open_] at terminal
      cases terminal
    · rintro rfl
      cases open_
  simp [Stateful.reconcile, passes]

end Webfang.Domain
