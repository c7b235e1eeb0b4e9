import Webfang.Domain.PageState
import Webfang.Library.KeyedList

/-!
# Record transitions

The rules of `domain/record_transition.rs`: the invariant table of a persisted record,
the quarantine at load time, and the one `EXPORTED → COMMITTED` transition that every
commit path of the exporter goes through.
-/
namespace Webfang.Domain

open Library

def isMeaninglessIdentity (url : String) : Bool := Text.isBlank url

def invariantViolation (record : RawRecord) : Option String :=
  if isMeaninglessIdentity record.url then some "url must not be empty"
  else if record.status.isTerminal && !record.isMigratedV1 &&
      (record.outputLocation.isNone || record.contentHash.isNone) then
    some "exported/committed requires output_location and content_hash"
  else if record.status = .committed && record.lastError.isSome then
    some "committed must not carry last_error"
  else if record.status = .committed && record.attempts < 1 then
    some "committed requires attempts >= 1"
  else none

/-- The invariant table as a proposition, one field for each rule. -/
structure RawRecord.Valid (record : RawRecord) : Prop where
  identity : isMeaninglessIdentity record.url = false
  flushed : record.status.isTerminal = true → record.isMigratedV1 = false →
    record.outputLocation.isSome ∧ record.contentHash.isSome
  clean : record.status = .committed → record.lastError = none
  driven : record.status = .committed → record.attempts ≠ 0

theorem invariantViolation_eq_none_iff (record : RawRecord) :
    invariantViolation record = none ↔ record.Valid := by
  constructor
  · intro passes
    unfold invariantViolation at passes
    split_ifs at passes with blank unflushed dirty idle
    refine ⟨by simpa using blank, ?_, ?_, ?_⟩
    · intro terminal fresh
      simp only [terminal, fresh, Bool.not_false, Bool.and_self, Bool.true_and,
        Bool.or_eq_true, not_or, Option.isNone_iff_eq_none] at unflushed
      exact ⟨Option.isSome_iff_ne_none.mpr unflushed.1, Option.isSome_iff_ne_none.mpr unflushed.2⟩
    · intro here
      simpa [here] using dirty
    · intro here
      simpa [here] using idle
  · rintro ⟨identity, flushed, clean, driven⟩
    unfold invariantViolation
    rw [if_neg (by simp [identity]), if_neg, if_neg, if_neg]
    · simpa using driven
    · simpa using clean
    · simp only [Bool.and_eq_true, Bool.not_eq_true', Bool.or_eq_true, not_and]
      rintro ⟨terminal, fresh⟩
      obtain ⟨output, hash⟩ := flushed terminal fresh
      simp [Option.isNone_iff_eq_none, Option.isSome_iff_ne_none.mp output,
        Option.isSome_iff_ne_none.mp hash]

instance (record : RawRecord) : Decidable record.Valid :=
  decidable_of_iff _ (invariantViolation_eq_none_iff record)

/-- Reconciliation at the record's own status asks what the table asks, identity apart. -/
theorem validate_self_iff (record : RawRecord)
    (identity : isMeaninglessIdentity record.url = false) :
    validate record record.status = .ok () ↔ record.Valid := by
  rw [validate_ok_iff]
  constructor
  · rintro ⟨-, flushed, committed⟩
    exact ⟨identity, flushed, fun here => (committed here).1, fun here => (committed here).2⟩
  · rintro ⟨-, flushed, clean, driven⟩
    exact ⟨rfl, flushed, fun here => ⟨clean here, driven here⟩⟩

theorem RawRecord.Valid.reconcile {record : RawRecord} (valid : record.Valid)
    {state : PageStatus} (here : record.status = state) :
    Stateful.reconcile state record = .ok ⟨record⟩ := by
  subst here
  simp [Stateful.reconcile, (validate_self_iff record valid.identity).mpr valid]

/-- A record whose status is not yet `EXPORTED` is valid as soon as its URL is. -/
theorem RawRecord.Valid.of_nonterminal {record : RawRecord}
    (identity : isMeaninglessIdentity record.url = false)
    (open_ : record.status.isTerminal = false) : record.Valid := by
  refine ⟨identity, ?_, ?_, ?_⟩
  · intro terminal
    rw [open_] at terminal
    cases terminal
  all_goals
    intro here
    rw [here] at open_
    cases open_

structure QuarantinedEntry where
  url : String
  invariant : String
  deriving DecidableEq, Repr

def partitionValid (records : DomainRecords) : DomainRecords × List QuarantinedEntry :=
  (records.foldl (fun kept key record =>
      match invariantViolation record with
      | some _ => kept
      | none => kept.insert key record) ∅,
    records.toList.filterMap fun (_, record) =>
      (invariantViolation record).map fun invariant => ⟨record.url, invariant⟩)

/-- Quarantine drops exactly the invalid slots. -/
theorem getElem?_partitionValid (records : DomainRecords) (key : String) :
    (partitionValid records).1[key]? = records[key]?.filter (fun r => decide r.Valid) := by
  have body := KeyedMap.getElem?_foldl
    (fun (kept : DomainRecords) key record =>
      match invariantViolation record with
      | some _ => kept
      | none => kept.insert key record)
    (fun old record => if record.Valid then some record else old)
    (by
      intro kept k record k'
      cases violated : invariantViolation record with
      | some invariant =>
        have invalid : ¬ record.Valid := by
          rw [← invariantViolation_eq_none_iff, violated]
          simp
        by_cases same : k = k' <;> simp [same, invalid]
      | none =>
        have valid := (invariantViolation_eq_none_iff record).mp violated
        simp [valid, Std.ExtTreeMap.getElem?_insert])
    records ∅ key
  rw [partitionValid, body]
  cases records[key]? <;> simp [Option.filter]

/-- A map of valid records, the form in which records leave the load-time check. -/
def AllValid (records : DomainRecords) : Prop :=
  ∀ (key : String) (record : RawRecord), records[key]? = some record → record.Valid

theorem allValid_partitionValid (records : DomainRecords) : AllValid (partitionValid records).1 := by
  intro key record found
  rw [getElem?_partitionValid, Option.filter_eq_some_iff] at found
  simpa using found.2

theorem partitionValid_eq_self {records : DomainRecords} (valid : AllValid records) :
    (partitionValid records).1 = records := by
  apply Std.ExtTreeMap.ext_getElem?
  intro key
  rw [getElem?_partitionValid]
  cases found : records[key]? with
  | none => rfl
  | some record => simp [Option.filter, valid key record found]

theorem AllValid.empty : AllValid ∅ := by
  intro key record found
  simp at found

theorem AllValid.insert {records : DomainRecords} (valid : AllValid records) (key : String)
    {record : RawRecord} (added : record.Valid) : AllValid (records.insert key record) := by
  intro k r found
  rw [Std.ExtTreeMap.getElem?_insert] at found
  split at found
  · cases found; exact added
  · exact valid k r found

theorem AllValid.erase {records : DomainRecords} (valid : AllValid records) (key : String) :
    AllValid (records.erase key) := by
  intro k r found
  rw [Std.ExtTreeMap.getElem?_erase] at found
  split at found
  · cases found
  · exact valid k r found

/-- The commit-point transition: only the status changes, and only from a valid
`EXPORTED` record whose `COMMITTED` successor satisfies the table. -/
def tryCommitExported (current : RawRecord) : Option RawRecord :=
  if isMeaninglessIdentity current.url || current.status ≠ .exported then none
  else
    match Stateful.reconcile .exported current with
    | .error _ => none
    | .ok exported =>
      let candidate := exported.commit.record
      if invariantViolation candidate = none then some candidate else none

/-- Install the successor under `key` when the machine accepts the transition. -/
def swapToCommitted (records : DomainRecords) (key : String) : DomainRecords × Bool :=
  match records[key]?.bind tryCommitExported with
  | none => (records, false)
  | some committed => (records.insert key committed, true)

theorem tryCommitExported_eq_some {current committed : RawRecord}
    (accepted : tryCommitExported current = some committed) :
    current.status = .exported ∧ committed = { current with status := .committed } ∧
      committed.Valid := by
  unfold tryCommitExported at accepted
  split at accepted
  · cases accepted
  next open_ =>
    have here : current.status = .exported := by
      by_contra other
      simp [other] at open_
    cases reconciled : Stateful.reconcile .exported current with
    | error e => simp [reconciled] at accepted
    | ok exported =>
      have same := Stateful.record_of_reconcile reconciled
      simp only [reconciled] at accepted
      split at accepted
      next passes =>
        have valid := (invariantViolation_eq_none_iff _).mp passes
        cases accepted
        exact ⟨here, by rw [Stateful.record_commit, same], valid⟩
      · cases accepted

theorem tryCommitExported_of_valid {current : RawRecord} (valid : current.Valid)
    (here : current.status = .exported) (clean : current.lastError = none)
    (driven : current.attempts ≠ 0) :
    tryCommitExported current = some { current with status := .committed } := by
  have successor : ({ current with status := .committed } : RawRecord).Valid := by
    refine ⟨valid.identity, ?_, fun _ => clean, fun _ => driven⟩
    intro _ fresh
    exact valid.flushed (by simp [here, PageStatus.isTerminal]) fresh
  have passes := (invariantViolation_eq_none_iff _).mpr successor
  simp [tryCommitExported, valid.identity, here, valid.reconcile here, passes]

theorem swapToCommitted_allValid {records : DomainRecords} (valid : AllValid records)
    (key : String) : AllValid (swapToCommitted records key).1 := by
  unfold swapToCommitted
  split
  · exact valid
  next committed accepted =>
    obtain ⟨current, -, accepted⟩ := Option.bind_eq_some_iff.mp accepted
    exact valid.insert key (tryCommitExported_eq_some accepted).2.2

end Webfang.Domain
