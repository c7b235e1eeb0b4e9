import Webfang.Domain.RecordTransition
import Webfang.Library.Json

/-!
# Record store

The JSON-per-domain record store (`infrastructure/export/record_store.rs`): the versioned
envelope with its codec, the load with its version dispatch, the version-1 migration and
the read-modify-write transaction under the store lock. A state file is modelled by the
document it parses to; the file-system calls of one operation succeed or fail as `Io` says.
-/
namespace Webfang.Domain

open Library

def PageStatus.name : PageStatus → String
  | .discovered => "DISCOVERED"
  | .queued => "QUEUED"
  | .fetching => "FETCHING"
  | .fetched => "FETCHED"
  | .extracted => "EXTRACTED"
  | .processed => "PROCESSED"
  | .exported => "EXPORTED"
  | .committed => "COMMITTED"

def PageStatus.ofName : String → Option PageStatus
  | "DISCOVERED" => some .discovered
  | "QUEUED" => some .queued
  | "FETCHING" => some .fetching
  | "FETCHED" => some .fetched
  | "EXTRACTED" => some .extracted
  | "PROCESSED" => some .processed
  | "EXPORTED" => some .exported
  | "COMMITTED" => some .committed
  | _ => none

def ErrorClass.name : ErrorClass → String
  | .transientRetriable => "transient_retriable"
  | .transientBackoff => "transient_backoff"
  | .permanentFatal => "permanent_fatal"
  | .internalFatal => "internal_fatal"
  | .domainRecoverable => "domain_recoverable"

def ErrorClass.ofName : String → Option ErrorClass
  | "transient_retriable" => some .transientRetriable
  | "transient_backoff" => some .transientBackoff
  | "permanent_fatal" => some .permanentFatal
  | "internal_fatal" => some .internalFatal
  | "domain_recoverable" => some .domainRecoverable
  | _ => none

theorem PageStatus.ofName_name (status : PageStatus) : PageStatus.ofName status.name = some status := by
  cases status <;> rfl

theorem ErrorClass.ofName_name (errorClass : ErrorClass) :
    ErrorClass.ofName errorClass.name = some errorClass := by
  cases errorClass <;> rfl

/-- The fields of a derived record decoder, in order: by name from an object, by position
from an array of the exact length. -/
def structFields (names : List String) : Json → Option (List (Option Json))
  | .obj fields => some (names.map (Json.obj fields).get)
  | .arr items => if items.length = names.length then some (items.map some) else none
  | _ => none

def LastError.toValue (e : LastError) : Json :=
  .obj [("class", .str e.errorClass.name), ("message", .str e.message)]

def LastError.fromValue (value : Json) : Option LastError := do
  match ← structFields ["class", "message"] value with
  | [some errorClass, some message] =>
    return ⟨← errorClass.asUnitVariant.bind ErrorClass.ofName, ← message.asStr⟩
  | _ => none

def rawRecordFields : List String :=
  ["url", "canonical_url", "run_id", "content_hash", "attempts", "status", "last_error",
    "output_location", "updated_at"]

def RawRecord.toValue (record : RawRecord) : Json :=
  .obj [
    ("url", .str record.url),
    ("canonical_url", .str record.canonicalUrl),
    ("run_id", .str record.runId),
    ("content_hash", .ofOption .str record.contentHash),
    ("attempts", .int record.attempts.toNat),
    ("status", .str record.status.name),
    ("last_error", .ofOption LastError.toValue record.lastError),
    ("output_location", .ofOption .str record.outputLocation),
    ("updated_at", .int record.updatedAt.toInt)]

/-- `deny_unknown_fields`. -/
def knownFields (names : List String) : Json → Bool
  | .obj fields => fields.all fun field => names.contains field.1
  | _ => true

def RawRecord.ofFields : List (Option Json) → Option RawRecord
  | [some url, some canonicalUrl, some runId, contentHash, some attempts, some status,
      lastError, outputLocation, some updatedAt] => do
    return {
      url := ← url.asStr
      canonicalUrl := ← canonicalUrl.asStr
      runId := ← runId.asStr
      contentHash := ← Json.asOption Json.asStr contentHash
      attempts := ← attempts.asU32
      status := ← status.asUnitVariant.bind PageStatus.ofName
      lastError := ← Json.asOption LastError.fromValue lastError
      outputLocation := ← Json.asOption Json.asStr outputLocation
      updatedAt := ← updatedAt.asI64 }
  | _ => none

def RawRecord.fromValue (value : Json) : Option RawRecord :=
  if knownFields rawRecordFields value then
    (structFields rawRecordFields value).bind RawRecord.ofFields
  else none

theorem LastError.fromValue_toValue (e : LastError) : LastError.fromValue e.toValue = some e := by
  simp [LastError.fromValue, LastError.toValue, structFields, Json.get, Json.asUnitVariant,
    Json.asStr, ErrorClass.ofName_name]

private theorem RawRecord.structFields_toValue (record : RawRecord) :
    structFields rawRecordFields record.toValue = some [
      some (.str record.url), some (.str record.canonicalUrl), some (.str record.runId),
      some (.ofOption .str record.contentHash), some (.int record.attempts.toNat),
      some (.str record.status.name), some (.ofOption LastError.toValue record.lastError),
      some (.ofOption .str record.outputLocation), some (.int record.updatedAt.toInt)] := rfl

private theorem RawRecord.knownFields_toValue (record : RawRecord) :
    knownFields rawRecordFields record.toValue = true := rfl

theorem RawRecord.fromValue_toValue (record : RawRecord) :
    RawRecord.fromValue record.toValue = some record := by
  have text (value : Option String) :
      Json.asOption Json.asStr (some (Json.ofOption .str value)) = some value :=
    Json.asOption_ofOption .str (fun _ => rfl) (fun _ => Json.noConfusion) value
  have lastError := Json.asOption_ofOption _ LastError.fromValue_toValue
    (fun _ => Json.noConfusion) record.lastError
  have attempts := Json.asU32_int record.attempts
  have updatedAt := Json.asI64_int record.updatedAt
  have status : (Json.str record.status.name).asUnitVariant.bind PageStatus.ofName =
      some record.status := PageStatus.ofName_name record.status
  rw [RawRecord.fromValue, RawRecord.knownFields_toValue, RawRecord.structFields_toValue,
    if_pos rfl, Option.bind_some, RawRecord.ofFields, text, text, lastError, attempts,
    updatedAt, status]
  rfl

def recordsToValue (records : DomainRecords) : Json :=
  .obj (records.toList.map fun entry => (entry.1, entry.2.toValue))

def recordsFromValue : Json → Option DomainRecords
  | .obj fields => do
    let entries ← fields.mapM fun field => (RawRecord.fromValue field.2).map (field.1, ·)
    return Std.ExtTreeMap.ofList entries
  | _ => none

theorem ofList_toList (records : DomainRecords) :
    (Std.ExtTreeMap.ofList records.toList : DomainRecords) = records := by
  apply Std.ExtTreeMap.ext_getElem?
  intro key
  cases found : records[key]? with
  | none =>
    apply Std.ExtTreeMap.getElem?_ofList_of_contains_eq_false
    rw [Bool.eq_false_iff]
    intro member
    simp only [List.contains_iff_mem, List.mem_map] at member
    obtain ⟨⟨k, record⟩, entry, rfl⟩ := member
    rw [Std.ExtTreeMap.mem_toList_iff_getElem?_eq_some, found] at entry
    cases entry
  | some record =>
    exact Std.ExtTreeMap.getElem?_ofList_of_mem (Std.compare_self)
      Std.ExtTreeMap.distinct_keys_toList
      (Std.ExtTreeMap.mem_toList_iff_getElem?_eq_some.mpr found)

theorem recordsFromValue_toValue (records : DomainRecords) :
    recordsFromValue (recordsToValue records) = some records := by
  have decoded : ∀ entries : List (String × RawRecord),
      (entries.map fun entry => (entry.1, entry.2.toValue)).mapM
        (fun field => (RawRecord.fromValue field.2).map (field.1, ·)) = some entries := by
    intro entries
    induction entries with
    | nil => rfl
    | cons entry rest ih =>
      simp only [List.map_cons, List.mapM_cons, RawRecord.fromValue_toValue, ih]
      rfl
  simp [recordsFromValue, recordsToValue, decoded, ofList_toList]

end Webfang.Domain

namespace Webfang.Export

open Library Domain

def currentVersion : UInt32 := 2

structure StoreFile where
  version : UInt32
  domainKey : String
  createdAt : Int64
  updatedAt : Int64
  records : DomainRecords

def StoreFile.toValue (file : StoreFile) : Json :=
  .obj [
    ("version", .int file.version.toNat),
    ("domain_key", .str file.domainKey),
    ("created_at", .int file.createdAt.toInt),
    ("updated_at", .int file.updatedAt.toInt),
    ("records", recordsToValue file.records)]

def StoreFile.ofFields : List (Option Json) → Option StoreFile
  | [some version, some domainKey, some createdAt, some updatedAt, some records] => do
    return {
      version := ← version.asU32
      domainKey := ← domainKey.asStr
      createdAt := ← createdAt.asI64
      updatedAt := ← updatedAt.asI64
      records := ← recordsFromValue records }
  | _ => none

/-- Unlike a record, the envelope tolerates unknown fields. -/
def StoreFile.fromValue (value : Json) : Option StoreFile :=
  (structFields ["version", "domain_key", "created_at", "updated_at", "records"] value).bind
    StoreFile.ofFields

theorem StoreFile.fromValue_toValue (file : StoreFile) :
    StoreFile.fromValue file.toValue = some file := by
  have fields : structFields
      ["version", "domain_key", "created_at", "updated_at", "records"] file.toValue = some [
        some (.int file.version.toNat), some (.str file.domainKey),
        some (.int file.createdAt.toInt), some (.int file.updatedAt.toInt),
        some (recordsToValue file.records)] := rfl
  rw [StoreFile.fromValue, fields, Option.bind_some, StoreFile.ofFields, Json.asU32_int,
    Json.asI64_int, Json.asI64_int, recordsFromValue_toValue]
  rfl

/-- What stands at the state path. -/
inductive StateFile where
  | missing
  | unparsable
  | envelope (value : Json)

inductive RecordStoreError where
  | io
  | corrupt
  | unsupportedVersion (found : UInt32)
  | backup
  | invalidRecord (reason : String)
  deriving DecidableEq, Repr

/-- The file-system calls of one operation: whether each succeeds, the clock, and the
modification time of the state file in milliseconds when it is readable. -/
structure Io where
  lock : Bool := true
  read : Bool := true
  backup : Bool := true
  migrationSave : Bool := true
  save : Bool := true
  clock : Int64 := 0
  modified : Option Int64 := none

/-- An operation where every call succeeds. -/
def Io.Succeeds (io : Io) : Prop :=
  io.lock = true ∧ io.read = true ∧ io.backup = true ∧ io.migrationSave = true ∧ io.save = true

structure RecordStore where
  domainKey : String

def existingCreatedAt : StateFile → Option Int64
  | .envelope value => (value.get "created_at").bind Json.asI64
  | _ => none

namespace RecordStore

/-- The atomic write: the new envelope replaces the file, or the file stays. -/
def saveLocked (store : RecordStore) (written : Bool) (clock : Int64) (file : StateFile)
    (records : DomainRecords) (updatedAt : Int64) : Except RecordStoreError StateFile :=
  if written then
    .ok (.envelope (StoreFile.toValue {
      version := currentVersion
      domainKey := store.domainKey
      createdAt := (existingCreatedAt file).getD clock
      updatedAt
      records }))
  else .error .io

def validateAndQuarantine (records : DomainRecords) : DomainRecords := (partitionValid records).1

/-- `Vec<String>` from a JSON value. -/
def stringList : Json → Option (List String)
  | .arr items => items.mapM Json.asStr
  | _ => none

def processedUrls (legacy : Json) : Option (List String) :=
  (legacy.get "processed_urls").bind stringList

def migratedRecord (url : String) (updatedAt : Int64) : RawRecord where
  url
  canonicalUrl := url
  runId := migratedV1RunId
  contentHash := none
  attempts := 1
  status := .committed
  lastError := none
  outputLocation := none
  updatedAt

theorem migratedRecord_valid {url : String} (identity : isMeaninglessIdentity url = false)
    (updatedAt : Int64) : (migratedRecord url updatedAt).Valid where
  identity := identity
  flushed _ fresh := by cases fresh
  clean _ := rfl
  driven _ := by simp [migratedRecord]

def migrateRecords (urls : List String) (updatedAt : Int64) : DomainRecords :=
  urls.foldl (fun records url =>
    if isMeaninglessIdentity url then records
    else records.insert url (migratedRecord url updatedAt)) ∅

/-- Backup first, then the version-2 envelope. The second component is the state file
afterwards. -/
def migrateV1 (store : RecordStore) (io : Io) (file : StateFile) (legacy : Json) :
    Except RecordStoreError DomainRecords × StateFile :=
  match processedUrls legacy with
  | none => (.error .corrupt, file)
  | some urls =>
    let updatedAt := io.modified.getD ((existingCreatedAt file).getD io.clock)
    let records := migrateRecords urls updatedAt
    if io.backup then
      match store.saveLocked io.migrationSave io.clock file records updatedAt with
      | .error e => (.error e, file)
      | .ok migrated => (.ok (validateAndQuarantine records), migrated)
    else (.error .backup, file)

def versionOf (envelope : Json) : UInt32 :=
  (((envelope.get "version").bind Json.asU64).getD 1).toUInt32

def loadUnderLock (store : RecordStore) (io : Io) (file : StateFile) :
    Except RecordStoreError DomainRecords × StateFile :=
  if !io.read then (.error .io, file)
  else
    match file with
    | .missing => (.error .io, file)
    | .unparsable => (.error .corrupt, file)
    | .envelope envelope =>
      if versionOf envelope = currentVersion then
        match StoreFile.fromValue envelope with
        | none => (.error .corrupt, file)
        | some stored => (.ok (validateAndQuarantine stored.records), file)
      else if versionOf envelope = 1 then store.migrateV1 io file envelope
      else (.error (.unsupportedVersion (versionOf envelope)), file)

def load (store : RecordStore) (io : Io) (file : StateFile) :
    Except RecordStoreError DomainRecords × StateFile :=
  match file with
  | .missing => (.ok ∅, .missing)
  | file => if io.lock then store.loadUnderLock io file else (.error .io, file)

/-- Every error degrades to a fresh empty view. -/
def loadOrInit (store : RecordStore) (io : Io) (file : StateFile) : DomainRecords × StateFile :=
  match store.load io file with
  | (.ok records, after) => (records, after)
  | (.error _, after) => (∅, after)

/-- The file may have appeared since the caller looked, so it is re-checked here. -/
def readUnderLock (store : RecordStore) (io : Io) (file : StateFile) :
    Except RecordStoreError DomainRecords × StateFile :=
  match file with
  | .missing => (.ok ∅, .missing)
  | file => store.loadUnderLock io file

/-- Read, mutate and write back with the lock held. -/
def update (store : RecordStore) (io : Io) (file : StateFile)
    (mutate : DomainRecords → Except RecordStoreError DomainRecords) :
    Except RecordStoreError Unit × StateFile :=
  if !io.lock then (.error .io, file)
  else
    match store.readUnderLock io file with
    | (.error e, file) => (.error e, file)
    | (.ok records, file) =>
      match mutate records with
      | .error e => (.error e, file)
      | .ok mutated =>
        match store.saveLocked io.save io.clock file mutated io.clock with
        | .error e => (.error e, file)
        | .ok saved => (.ok (), saved)

def save (store : RecordStore) (io : Io) (file : StateFile) (records : DomainRecords) :
    Except RecordStoreError Unit × StateFile :=
  if !io.lock then (.error .io, file)
  else
    match store.saveLocked io.save io.clock file records io.clock with
    | .error e => (.error e, file)
    | .ok saved => (.ok (), saved)

end RecordStore

/-! ### What a transaction sees -/

open RecordStore

/-- The file holds `records` in the current format, with nothing to migrate. -/
inductive Stores : StateFile → DomainRecords → Prop
  | missing : Stores .missing ∅
  | envelope {value : Json} {stored : StoreFile} (version : versionOf value = currentVersion)
      (decoded : StoreFile.fromValue value = some stored) :
      Stores (.envelope value) stored.records

theorem versionOf_toValue (file : StoreFile) : versionOf file.toValue = file.version := by
  have field : file.toValue.get "version" = some (.int file.version.toNat) := rfl
  have read := Json.asU64_int file.version.toUInt64
  rw [UInt32.toNat_toUInt64] at read
  rw [versionOf, field, Option.bind_some, read, Option.getD_some, UInt32.toUInt32_toUInt64]

theorem saveLocked_stores {store : RecordStore} {written : Bool} {clock updatedAt : Int64}
    {file saved : StateFile} {records : DomainRecords}
    (returned : store.saveLocked written clock file records updatedAt = .ok saved) :
    Stores saved records := by
  unfold saveLocked at returned
  split at returned
  · cases returned
    exact .envelope (versionOf_toValue _) (StoreFile.fromValue_toValue _)
  · cases returned

/-- A readable file in the current format yields its valid records and stays as it is. -/
theorem Stores.readUnderLock {file : StateFile} {records : DomainRecords}
    (stores : Stores file records) (store : RecordStore) {io : Io} (read : io.read = true) :
    store.readUnderLock io file = (.ok (validateAndQuarantine records), file) := by
  cases stores with
  | missing =>
    have nothing : validateAndQuarantine ∅ = ∅ := partitionValid_eq_self AllValid.empty
    simp [RecordStore.readUnderLock, nothing]
  | envelope version decoded =>
    simp [RecordStore.readUnderLock, RecordStore.loadUnderLock, read, version, decoded]

theorem Stores.loadOrInit {file : StateFile} {records : DomainRecords} (stores : Stores file records)
    (valid : AllValid records) (store : RecordStore) {io : Io} (locked : io.lock = true)
    (read : io.read = true) : store.loadOrInit io file = (records, file) := by
  have kept : validateAndQuarantine records = records := partitionValid_eq_self valid
  have seen := stores.readUnderLock store read
  rw [kept] at seen
  cases stores with
  | missing => rfl
  | envelope =>
    simp only [RecordStore.readUnderLock] at seen
    simp [RecordStore.loadOrInit, RecordStore.load, locked, seen]

/-- A transaction on a file of valid records either leaves it alone or stores exactly what
`mutate` makes of those records. -/
theorem Stores.update {file : StateFile} {records : DomainRecords}
    (stores : Stores file records) (valid : AllValid records) (store : RecordStore) (io : Io)
    (mutate : DomainRecords → Except RecordStoreError DomainRecords) :
    (∃ e, store.update io file mutate = (.error e, file)) ∨
      ∃ mutated saved, store.update io file mutate = (.ok (), saved) ∧
        mutate records = .ok mutated ∧ Stores saved mutated := by
  unfold RecordStore.update
  cases locked : io.lock with
  | false => exact .inl ⟨.io, by simp⟩
  | true =>
    have same : (RecordStore.validateAndQuarantine records) = records :=
      partitionValid_eq_self valid
    -- the lock is held, so the file is read or it is missing
    have seen : store.readUnderLock io file = (.ok records, file) ∨
        store.readUnderLock io file = (.error .io, file) := by
      cases readable : io.read with
      | true => exact .inl (by rw [stores.readUnderLock store readable, same])
      | false =>
        cases stores with
        | missing => exact .inl rfl
        | envelope => exact .inr (by simp [RecordStore.readUnderLock, loadUnderLock, readable])
    rcases seen with seen | seen
    · cases changed : mutate records with
      | error e => exact .inl ⟨e, by simp [seen, changed]⟩
      | ok mutated =>
        cases written : store.saveLocked io.save io.clock file mutated io.clock with
        | error e => exact .inl ⟨e, by simp [seen, changed, written]⟩
        | ok saved =>
          exact .inr ⟨mutated, saved, by simp [seen, changed, written], rfl,
            saveLocked_stores written⟩
    · exact .inl ⟨.io, by simp [seen]⟩

/-- With every call succeeding the transaction goes through. -/
theorem Stores.update_of_succeeds {store : RecordStore} {io : Io} {file : StateFile}
    {records mutated : DomainRecords} (stores : Stores file records) (valid : AllValid records)
    (succeeds : io.Succeeds) {mutate : DomainRecords → Except RecordStoreError DomainRecords}
    (changed : mutate records = .ok mutated) :
    ∃ saved, store.update io file mutate = (.ok (), saved) ∧ Stores saved mutated := by
  obtain ⟨locked, readable, -, -, written⟩ := succeeds
  have same : (RecordStore.validateAndQuarantine records) = records :=
    partitionValid_eq_self valid
  have seen := stores.readUnderLock store readable
  rw [same] at seen
  obtain ⟨saved, returned⟩ : ∃ saved,
      store.saveLocked io.save io.clock file mutated io.clock = .ok saved := by
    simp [saveLocked, written]
  exact ⟨saved, by simp [RecordStore.update, locked, seen, changed, returned],
    saveLocked_stores returned⟩

end Webfang.Export
