import Webfang.Export.CommitSession

/-!
# The resume gate after a version-1 migration

The migration stores each legacy URL under its own spelling, while every reader of the
store looks records up under the canonical key (`application/resume.rs`). The two agree on
the URLs whose canonical key is itself a legacy entry, and on no others.
-/
namespace Webfang.Export

open Library Domain RecordStore

variable {crates : UrlCrates}

/-! ### The resume gate -/

def isCommittedProven (crates : UrlCrates) (url : String) (records : DomainRecords) : Bool :=
  match records[crates.canonicalKey url]? with
  | some record => (Stateful.reconcile .committed record).isOk
  | none => false

/-- The URLs still to drive, and the state file after the load. -/
def filterCommitted (crates : UrlCrates) (urls : List String) (store : RecordStore) (io : Io)
    (file : StateFile) : List String × StateFile :=
  let (records, file) := store.loadOrInit io file
  (urls.filter fun url => !isCommittedProven crates url records, file)

theorem decide_alreadyCommitted_iff {session : CommitSession} {ctx : ResumeContext}
    (context : session.ctx = some ctx) (resume : ctx.resume = true) (url : String)
    (freshHash : Option String) :
    session.decide crates url freshHash = .alreadyCommitted ↔
      isCommittedProven crates url session.records = true := by
  unfold CommitSession.decide isCommittedProven
  simp only [context, resume, Bool.not_true, Bool.false_eq_true, if_false]
  cases session.records[crates.canonicalKey url]? with
  | none =>
    cases freshHash with
    | none => simp
    | some fresh => dsimp only; split <;> simp
  | some record =>
    cases proven : (Stateful.reconcile .committed record).isOk with
    | true => simp [proven]
    | false =>
      simp only [proven, Bool.false_eq_true, if_false, iff_false]
      split
      · split <;> simp
      · simp

/-! ### What the migration stores -/

/-- A slot of the migrated map holds the record of its own spelling. -/
theorem getElem?_migrateRecords (urls : List String) (updatedAt : Int64) (key : String) :
    (migrateRecords urls updatedAt)[key]? =
      if key ∈ urls ∧ isMeaninglessIdentity key = false then some (migratedRecord key updatedAt)
      else none := by
  unfold migrateRecords
  induction urls using List.reverseRecOn with
  | nil => simp
  | append_singleton urls url ih =>
    rw [List.foldl_append, List.foldl_cons, List.foldl_nil]
    by_cases same : url = key
    · subst same
      cases identity : isMeaninglessIdentity url <;> simp_all
    · have other : (key ∈ urls ++ [url]) ↔ key ∈ urls := by simp [Ne.symm same]
      simp only [other]
      split
      · exact ih
      · rw [Std.ExtTreeMap.getElem?_insert,
          if_neg fun equal => same (Std.LawfulEqOrd.eq_of_compare equal), ih]

theorem migrateRecords_allValid (urls : List String) (updatedAt : Int64) :
    AllValid (migrateRecords urls updatedAt) := by
  intro key record found
  rw [getElem?_migrateRecords] at found
  split at found
  next stored =>
    cases found
    exact migratedRecord_valid stored.2 updatedAt
  next => cases found

theorem load_migrates {store : RecordStore} {io : Io} {legacy : Json} {urls : List String}
    {records : DomainRecords} {after : StateFile} (version : versionOf legacy = 1)
    (decoded : processedUrls legacy = some urls)
    (returned : store.load io (.envelope legacy) = (.ok records, after)) :
    Stores after records ∧ ∃ updatedAt, records = migrateRecords urls updatedAt := by
  have older : ¬ (1 : UInt32) = currentVersion := by decide
  simp only [load, loadUnderLock, version, older, if_false] at returned
  split at returned
  next =>
    split at returned
    · cases returned
    · simp only [if_true, migrateV1, decoded] at returned
      split at returned
      next =>
        split at returned
        · cases returned
        next saved written =>
          cases returned
          have same := partitionValid_eq_self (migrateRecords_allValid urls
            (io.modified.getD ((existingCreatedAt (.envelope legacy)).getD io.clock)))
          rw [validateAndQuarantine, same]
          exact ⟨saveLocked_stores written, _, rfl⟩
      next => cases returned
  next => cases returned

theorem isCommittedProven_migrateRecords (crates : UrlCrates) (urls : List String)
    (updatedAt : Int64) (url : String) :
    isCommittedProven crates url (migrateRecords urls updatedAt) = true ↔
      crates.canonicalKey url ∈ urls ∧
        isMeaninglessIdentity (crates.canonicalKey url) = false := by
  unfold isCommittedProven
  rw [getElem?_migrateRecords]
  split
  next record found =>
    split at found
    next stored =>
      cases found
      have reconciled := (migratedRecord_valid stored.2 updatedAt).reconcile
        (rfl : _ = PageStatus.committed)
      simpa [reconciled, Except.isOk, Except.toBool] using stored
    next => cases found
  next missing =>
    split at missing
    next => cases missing
    next absent => simpa using absent

/-- After a migration the gate skips a legacy URL exactly when its canonical key is one of
the legacy entries: at the load itself, at every later load of the file, and in a session
that opened on the migrated records. -/
theorem migrated_url_skipped_iff (crates : UrlCrates) {store : RecordStore} {io : Io} {legacy : Json}
    {urls : List String} {records : DomainRecords} {after : StateFile}
    (version : versionOf legacy = 1) (decoded : processedUrls legacy = some urls)
    (returned : store.load io (.envelope legacy) = (.ok records, after)) (url : String) :
    let skipped := crates.canonicalKey url ∈ urls ∧
      isMeaninglessIdentity (crates.canonicalKey url) = false
    (isCommittedProven crates url records = true ↔ skipped) ∧
      (∀ later : Io, later.lock = true → later.read = true →
        ((filterCommitted crates [url] store later after).1 = [] ↔ skipped)) ∧
      ∀ session : CommitSession, session.records = records →
        ∀ ctx, session.ctx = some ctx → ctx.resume = true → ∀ freshHash,
          (session.decide crates url freshHash = .alreadyCommitted ↔ skipped) := by
  obtain ⟨stores, updatedAt, migrated⟩ := load_migrates version decoded returned
  -- the records are those of the legacy entries, whatever the clock said
  have proven := isCommittedProven_migrateRecords crates urls updatedAt url
  rw [← migrated] at proven
  refine ⟨proven, ?_, ?_⟩
  · intro later locked readable
    have valid : AllValid records := migrated ▸ migrateRecords_allValid urls updatedAt
    have reloaded := stores.loadOrInit valid store locked readable
    rw [← proven]
    simp [filterCommitted, reloaded]
  · intro session opened ctx context resume freshHash
    rw [decide_alreadyCommitted_iff context resume, opened]
    exact proven

def wwwLegacy : Json := .obj [("processed_urls", .arr [.str "https://www.example.com/a"])]

/-- The migrated page is driven again: its record stands under the other spelling. -/
theorem migration_loses_www :
    let store : RecordStore := ⟨"example.com"⟩
    processedUrls wwwLegacy = some ["https://www.example.com/a"] ∧
      (∃ records after, store.load {} (.envelope wwwLegacy) = (.ok records, after) ∧
        isCommittedProven plainUrls "https://www.example.com/a" records = false) ∧
      (filterCommitted plainUrls ["https://www.example.com/a"] store {} (.envelope wwwLegacy)).1 =
        ["https://www.example.com/a"] := by
  refine ⟨by decide, ⟨_, _, rfl, by decide⟩, by decide⟩

def canonicalLegacy : Json := .obj [("processed_urls", .arr [.str "https://example.com/a"])]

/-- A legacy URL that is already canonical is skipped. -/
theorem migrated_url_skipped_canonical :
    ∃ records after,
      (⟨"example.com"⟩ : RecordStore).load {} (.envelope canonicalLegacy) = (.ok records, after) ∧
      isCommittedProven plainUrls "https://example.com/a" records = true := by
  have version : versionOf canonicalLegacy = 1 := by decide
  have decoded : processedUrls canonicalLegacy = some ["https://example.com/a"] := by decide
  obtain ⟨records, after, returned⟩ : ∃ records after,
      (⟨"example.com"⟩ : RecordStore).load {} (.envelope canonicalLegacy) =
        (.ok records, after) := ⟨_, _, rfl⟩
  have skipped := migrated_url_skipped_iff plainUrls version decoded returned
    "https://example.com/a"
  exact ⟨records, after, returned, skipped.1.mpr (by decide)⟩

end Webfang.Export
