import Webfang.Export.CommitSession
import Webfang.Library.Transition

/-!
# Convergence of the shared record store

Any number of sessions over one state file. Each keeps its own working map and offers the
whole of it in one transaction, in any order and with any file-system outcome. The slot of
a key is a last-writer-wins register over the initial record and every record persisted
for that key, whoever persisted it.
-/
namespace Webfang.Export

open Library Domain CommitSession

variable {ι : Type} [DecidableEq ι]

structure SharedStore (ι : Type) where
  file : StateFile
  working : ι → DomainRecords
  /-- The maps merged so far, oldest first. -/
  persisted : List DomainRecords

inductive SharedEvent (ι : Type) where
  /-- A session moves its own map, by any of its operations. -/
  | work (session : ι) (records : DomainRecords)
  | persist (session : ι) (io : Io)

def SharedStore.after (store : RecordStore) (state : SharedStore ι) :
    SharedEvent ι → SharedStore ι
  | .work session records =>
    { state with working := Function.update state.working session records }
  | .persist session io =>
    match mergePersist (state.working session) store io state.file with
    | (.ok (), file) =>
      { state with file, persisted := state.persisted ++ [state.working session] }
    | (.error _, file) => { state with file }

def SharedStore.Step (store : RecordStore) (state : SharedStore ι) (event : SharedEvent ι)
    (next : SharedStore ι) : Prop :=
  next = state.after store event

/-- Sessions only ever hold valid records. -/
def WorksValid (_ : SharedStore ι) : SharedEvent ι → Prop
  | .work _ records => AllValid records
  | .persist _ _ => True

/-- What the slot of `key` was offered: the initial record, then every persisted one. -/
def offers (initial : DomainRecords) (persisted : List DomainRecords) (key : String) :
    List RawRecord :=
  initial[key]?.toList ++ persisted.filterMap fun mine => mine[key]?

theorem mem_offers {initial : DomainRecords} {persisted : List DomainRecords} {key : String} :
    offers initial persisted key ≠ [] ↔ key ∈ initial ∨ ∃ mine ∈ persisted, key ∈ mine := by
  simp only [Std.ExtTreeMap.mem_iff_isSome_getElem?, Option.isSome_iff_ne_none]
  rw [offers, ne_eq, List.append_eq_nil_iff, Option.toList_eq_nil_iff,
    List.filterMap_eq_nil_iff, not_and_or]
  simp only [not_forall, exists_prop]

/-- A successful transaction merges into exactly what the file holds. -/
theorem mergePersist_ok {store : RecordStore} {io : Io} {file saved : StateFile}
    {records mine : DomainRecords} (stores : Stores file records) (valid : AllValid records)
    (done : mergePersist mine store io file = (.ok (), saved)) :
    Stores saved (mergeRecords mine records) := by
  obtain ⟨e, failed⟩ | ⟨written, returned, held⟩ := mergePersist_cases stores valid mine store io
  · rw [failed] at done
    cases done
  · rw [returned] at done
    cases done
    exact held

theorem mergeRecords_mergeRecords (mine records : DomainRecords) :
    mergeRecords mine (mergeRecords mine records) = mergeRecords mine records := by
  apply Std.ExtTreeMap.ext_getElem?
  intro key
  rw [getElem?_mergeRecords, getElem?_mergeRecords]
  cases mine[key]? with
  | none => rfl
  | some record => exact LastWriter.resolve_resolve stamp records[key]? record

/-- The stored map is, slot by slot, the register of what was offered. -/
structure SharedStore.Converged (initial : DomainRecords) (state : SharedStore ι) : Prop where
  working : ∀ session, AllValid (state.working session)
  stored : ∃ records, Stores state.file records ∧ AllValid records ∧
    ∀ key, records[key]? = LastWriter.latest stamp (offers initial state.persisted key)

theorem after_converged {store : RecordStore} {initial : DomainRecords} {state : SharedStore ι}
    {event : SharedEvent ι} (converged : state.Converged initial)
    (valid : WorksValid state event) : (state.after store event).Converged initial := by
  obtain ⟨working, records, stores, recordsValid, slots⟩ := converged
  cases event with
  | work session mine =>
    refine ⟨?_, records, stores, recordsValid, slots⟩
    intro other
    by_cases same : other = session
    · subst same
      have mineValid : AllValid mine := valid
      simpa [SharedStore.after] using mineValid
    · simpa [SharedStore.after, same] using working other
  | persist session io =>
    simp only [SharedStore.after]
    obtain ⟨e, failed⟩ | ⟨saved, done, held⟩ :=
      mergePersist_cases stores recordsValid (state.working session) store io
    · -- a transaction that fails leaves the file
      rw [failed]
      exact ⟨working, records, stores, recordsValid, slots⟩
    · rw [done]
      refine ⟨working, _, held, mergeRecords_allValid (working session) recordsValid, ?_⟩
      intro key
      rw [getElem?_mergeRecords, slots key]
      -- a key that the session does not hold is offered nothing
      cases own : (state.working session)[key]? with
      | none => simp [offers, own]
      | some record =>
        simp only [offers, List.filterMap_append, List.filterMap_cons, own, List.filterMap_nil,
          ← List.append_assoc]
        rw [LastWriter.latest_append_singleton]

/-- What the store owes its sessions once it holds `records`. -/
structure SharedStore.KeepsLatest (store : RecordStore) (initial : DomainRecords)
    (state : SharedStore ι) (records : DomainRecords) : Prop where
  stores : Stores state.file records
  /-- No key of the initial store or of any persisted map is lost. -/
  kept : ∀ key, (key ∈ initial ∨ ∃ mine ∈ state.persisted, key ∈ mine) → key ∈ records
  /-- The record is the greatest stamp offered for its key, ties to the later offer. -/
  latest : ∀ key record, records[key]? = some record → ∃ before after,
    offers initial state.persisted key = before ++ record :: after ∧
      (∀ older ∈ before, older.updatedAt ≤ record.updatedAt) ∧
      ∀ newer ∈ after, newer.updatedAt < record.updatedAt
  /-- Merging the same map again leaves the records as they are. -/
  idempotent : ∀ session io io' once twice,
    mergePersist (state.working session) store io state.file = (.ok (), once) →
    mergePersist (state.working session) store io' once = (.ok (), twice) →
    ∃ merged, Stores once merged ∧ Stores twice merged

/-- Over any interleaving of any number of sessions the store keeps the latest record of
every key. -/
theorem store_keeps_latest {store : RecordStore} {initial : DomainRecords}
    (start : SharedStore ι) {state : SharedStore ι} (startStores : Stores start.file initial)
    (initialValid : AllValid initial) (working : ∀ session, AllValid (start.working session))
    (nothing : start.persisted = [])
    (reached : Reachable (SharedStore.Step store) WorksValid start state) :
    ∃ records, state.KeepsLatest store initial records := by
  have first : start.Converged initial := by
    refine ⟨working, initial, startStores, initialValid, ?_⟩
    intro key
    cases held : initial[key]? <;> simp [nothing, offers, held, LastWriter.latest,
      LastWriter.resolve]
  obtain ⟨workingNow, records, stores, valid, slots⟩ :=
    reached.invariant first fun s e s' converged met taken => by
      rw [taken]
      exact after_converged converged met
  refine ⟨records, stores, ?_, ?_, ?_⟩
  · intro key present
    have offered := mem_offers.mpr present
    rw [ne_eq, ← LastWriter.latest_eq_none_iff stamp, ← slots key] at offered
    exact Std.ExtTreeMap.mem_iff_isSome_getElem?.mpr (Option.isSome_iff_ne_none.mpr offered)
  · intro key record found
    rw [slots key] at found
    obtain ⟨before, after, split, earlier, later⟩ := LastWriter.latest_eq_some stamp found
    exact ⟨before, after, split, fun r member => Int64.le_iff_toInt_le.mpr (earlier r member),
      fun r member => Int64.lt_iff_toInt_lt.mpr (later r member)⟩
  · intro session io io' once twice done again
    have onceStores := mergePersist_ok stores valid done
    have twiceStores := mergePersist_ok onceStores
      (mergeRecords_allValid (workingNow session) valid) again
    rw [mergeRecords_mergeRecords] at twiceStores
    exact ⟨_, onceStores, twiceStores⟩

/-! Two sessions that both hold a record of one page, the first to persist the newer. -/

namespace TwoSessions

def page : String := "https://example.com/a"

def store : RecordStore := ⟨"example.com"⟩

def start : SharedStore Bool where
  file := .missing
  working newer := Std.ExtTreeMap.empty.insert page
    (RecordStore.migratedRecord page (if newer then 2 else 1))
  persisted := []

def bothPersisted : SharedStore Bool :=
  (start.after store (.persist true {})).after store (.persist false {})

end TwoSessions

open TwoSessions in
theorem store_keeps_latest_two_sessions :
    ∃ records, bothPersisted.KeepsLatest store ∅ records :=
  store_keeps_latest start .missing AllValid.empty
    (fun newer => AllValid.empty.insert page (RecordStore.migratedRecord_valid (by decide) _)) rfl
    (.step (e := .persist false {}) (.step (e := .persist true {}) .start trivial rfl) trivial rfl)

end Webfang.Export
