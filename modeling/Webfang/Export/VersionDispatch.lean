import Webfang.Export.Migration

/-!
# The version dispatch of the record store

`RecordStore::load` reads the version as an unsigned 64-bit integer, takes 1 where there is none,
and keeps the low 32 bits. Other versions than 1 that come out as 1 on this way are migrated.
-/
namespace Webfang.Export

open Library Domain RecordStore

variable {envelope version : Json} {store : RecordStore} {io : Io} {n : UInt64}

/-- A version that is not 1 and is read as 1: no unsigned 64-bit integer, or one whose low 32 bits
are 1. -/
def TakenForOne (version : Json) : Prop :=
  version.asU64 = none ∨ ∃ n : Nat, version = .int n ∧ 2 ^ 32 < n ∧ n < 2 ^ 64 ∧ n % 2 ^ 32 = 1

/-- A refusal of the file, or a failure before it could be read. -/
def Refusal (io : Io) : RecordStoreError → Prop
  | .unsupportedVersion _ | .corrupt => True
  | .io => io.lock = false ∨ io.read = false
  | _ => False

/-- Only the versions 1 and 2 are taken, the first or none for a migration and the second for
records. -/
structure GuardsVersion (store : RecordStore) (io : Io) (envelope : Json) : Prop where
  refused : ∀ version, envelope.get "version" = some version → version ≠ .int 1 → version ≠ .int 2 →
    ∃ e, store.load io (.envelope envelope) = (.error e, .envelope envelope) ∧ Refusal io e
  migrated : (store.load io (.envelope envelope)).2 ≠ .envelope envelope →
    envelope.get "version" = none ∨ envelope.get "version" = some (.int 1)
  records : ∀ records, store.load io (.envelope envelope) = (.ok records, .envelope envelope) →
    envelope.get "version" = some (.int 2)

/-! ### Reading the field -/

theorem asU64_eq_some : version.asU64 = some n ↔ version = .int n.toNat := by
  refine ⟨fun read => ?_, fun same => by rw [same, Json.asU64_int]⟩
  cases version with
  | int m =>
    simp only [Json.asU64] at read
    split at read
    next bounded =>
      cases read
      have bounded64 : m.toNat < 2 ^ 64 := by omega
      rw [UInt64.toNat_ofNat_of_lt' bounded64, Int.toNat_of_nonneg bounded.1]
    next => cases read
  | _ => cases read

theorem versionOf_of_get (field : envelope.get "version" = some version) :
    versionOf envelope = (version.asU64.getD 1).toUInt32 := by
  rw [versionOf, field, Option.bind_some]

theorem versionOf_of_absent (absent : envelope.get "version" = none) : versionOf envelope = 1 := by
  rw [versionOf, absent]
  rfl

theorem read_as_one_iff :
    (version.asU64.getD 1).toUInt32 = 1 ↔ version = .int 1 ∨ TakenForOne version := by
  cases read : version.asU64 with
  | none => exact iff_of_true rfl (.inr (.inl read))
  | some n =>
    have field := asU64_eq_some.mp read
    have bounded := n.toNat_lt
    have low : n.toUInt32 = 1 ↔ n.toNat % 2 ^ 32 = 1 := by
      rw [← UInt32.toNat_inj, UInt64.toNat_toUInt32]
      rfl
    rw [Option.getD_some, low]
    constructor
    · intro one
      by_cases small : n.toNat < 2 ^ 32
      · rw [Nat.mod_eq_of_lt small] at one
        exact .inl (by rw [field, one]; rfl)
      · exact .inr (.inr ⟨n.toNat, field, by omega, bounded, one⟩)
    · rintro (rfl | none | ⟨m, same, -, -, one⟩)
      · have one : n.toNat = 1 := by injection field with same; omega
        rw [one]
        rfl
      · rw [read] at none
        cases none
      · rw [field] at same
        have equal : n.toNat = m := by injection same with same; omega
        rwa [equal]

theorem asU32_eq_some {value : Json} {m : UInt32} (read : value.asU32 = some m) :
    value = .int m.toNat := by
  cases value with
  | int k =>
    simp only [Json.asU32] at read
    split at read
    next bounded =>
      cases read
      have bounded32 : k.toNat < 2 ^ 32 := by omega
      rw [UInt32.toNat_ofNat_of_lt' bounded32, Int.toNat_of_nonneg bounded.1]
    next => cases read
  | _ => cases read

/-- An envelope of records holds the number 2: the decoder reads the whole number. -/
theorem get_of_decoded {file : StoreFile} (current : versionOf envelope = currentVersion)
    (decoded : StoreFile.fromValue envelope = some file) : envelope.get "version" = some (.int 2) := by
  cases field : envelope.get "version" with
  | none =>
    rw [versionOf_of_absent field] at current
    exact absurd current (by decide)
  | some version =>
    rw [versionOf_of_get field] at current
    have whole : ∃ m, version.asU32 = some m := by
      cases envelope with
      | obj fields =>
        simp only [StoreFile.fromValue, structFields, List.map_cons, field, Option.bind_some] at decoded
        cases read : version.asU32 with
        | some m => exact ⟨m, rfl⟩
        | none =>
          unfold StoreFile.ofFields at decoded
          split at decoded
          next here =>
            injection here with first
            injection first with first
            rw [← first, read] at decoded
            cases decoded
          next => cases decoded
      | _ => cases field
    rcases whole with ⟨m, read⟩
    have same := asU32_eq_some read
    have wide := Json.asU64_int m.toUInt64
    rw [UInt32.toNat_toUInt64] at wide
    rw [same, wide, Option.getD_some, UInt32.toUInt32_toUInt64] at current
    rw [same, current]
    rfl

/-! ### The dispatch -/

/-- The migration refuses a file without a list of URLs, and never another one. -/
theorem migrateV1_of_none {file : StateFile} (undecoded : processedUrls envelope = none) :
    store.migrateV1 io file envelope = (.error .corrupt, file) := by
  rw [migrateV1, undecoded]

theorem migrateV1_of_some (store : RecordStore) (io : Io) (file : StateFile) {urls : List String}
    (decoded : processedUrls envelope = some urls) :
    (∃ records updatedAt created, store.migrateV1 io file envelope =
      (.ok records, .envelope (StoreFile.toValue ⟨currentVersion, store.domainKey, created, updatedAt,
        migrateRecords urls updatedAt⟩))) ∨
    store.migrateV1 io file envelope = (.error .backup, file) ∨
      store.migrateV1 io file envelope = (.error .io, file) := by
  simp only [migrateV1, decoded]
  cases io.backup with
  | false => exact .inr (.inl rfl)
  | true =>
    cases io.migrationSave with
    | false => exact .inr (.inr rfl)
    | true => exact .inl ⟨_, _, _, rfl⟩

theorem load_unreadable (blocked : io.lock = false ∨ io.read = false) :
    store.load io (.envelope envelope) = (.error .io, .envelope envelope) := by
  rcases blocked with unlocked | unread
  · simp [load, unlocked]
  · cases locked : io.lock <;> simp [load, loadUnderLock, locked, unread]

theorem load_readable (store : RecordStore) (envelope : Json) (locked : io.lock = true)
    (readable : io.read = true) :
    store.load io (.envelope envelope) =
      if versionOf envelope = currentVersion then
        match StoreFile.fromValue envelope with
        | none => (.error .corrupt, .envelope envelope)
        | some stored => (.ok (validateAndQuarantine stored.records), .envelope envelope)
      else if versionOf envelope = 1 then store.migrateV1 io (.envelope envelope) envelope
      else (.error (.unsupportedVersion (versionOf envelope)), .envelope envelope) := by
  have opened : store.load io (.envelope envelope) = store.loadUnderLock io (.envelope envelope) :=
    if_pos locked
  have held : ¬ (!io.read) = true := by simp [readable]
  exact opened.trans (if_neg held)

/-- A refusal that leaves the file keeps to the versions. -/
theorem guards_of_refused {e : RecordStoreError} (refusal : Refusal io e)
    (loaded : store.load io (.envelope envelope) = (.error e, .envelope envelope)) :
    GuardsVersion store io envelope where
  refused _ _ _ _ := ⟨e, loaded, refusal⟩
  migrated moved := by
    rw [loaded] at moved
    exact absurd rfl moved
  records _ read := by
    rw [loaded] at read
    cases read

theorem versionOf_of_takenForOne (field : envelope.get "version" = some version)
    (taken : TakenForOne version) : versionOf envelope = 1 :=
  (versionOf_of_get field).trans (read_as_one_iff.mpr (.inr taken))

theorem TakenForOne.foreign (taken : TakenForOne version) : version ≠ .int 1 ∧ version ≠ .int 2 := by
  rcases taken with none | ⟨n, rfl, large, -, -⟩
  · constructor <;> · rintro rfl; cases none
  · constructor <;> · intro same; injection same with same; omega

theorem guards_current (locked : io.lock = true) (readable : io.read = true)
    (current : versionOf envelope = currentVersion) : GuardsVersion store io envelope := by
  have loaded := load_readable store envelope locked readable
  rw [if_pos current] at loaded
  cases decoded : StoreFile.fromValue envelope with
  | none =>
    rw [decoded] at loaded
    exact guards_of_refused (by exact True.intro) loaded
  | some stored =>
    have field := get_of_decoded current decoded
    rw [decoded] at loaded
    refine ⟨fun version here _ two => ?_, fun moved => ?_, fun _ _ => field⟩
    · rw [field] at here
      exact absurd (Option.some.inj here).symm two
    · rw [loaded] at moved
      exact absurd rfl moved

/-- Over a list of URLs what is read as 1 is migrated, so that it must be 1 or absent. -/
theorem guards_legacy_iff {urls : List String} (locked : io.lock = true) (readable : io.read = true)
    (legacy : versionOf envelope = 1) (decoded : processedUrls envelope = some urls) :
    GuardsVersion store io envelope ↔
      ∀ version, envelope.get "version" = some version → ¬ TakenForOne version := by
  have older : ¬ versionOf envelope = currentVersion := by rw [legacy]; decide
  have loaded := load_readable store envelope locked readable
  rw [if_neg older, if_pos legacy] at loaded
  constructor
  · intro guards version field taken
    rcases guards.refused version field taken.foreign.1 taken.foreign.2 with ⟨e, failed, refusal⟩
    rw [loaded] at failed
    rcases migrateV1_of_some store io (.envelope envelope) decoded
      with ⟨records, updatedAt, created, migrated⟩ | unsaved | unsaved
    · rw [migrated] at failed
      cases failed
    · rw [unsaved] at failed
      cases failed
      exact refusal
    · rw [unsaved] at failed
      cases failed
      rcases refusal with unlocked | unread
      · rw [locked] at unlocked
        cases unlocked
      · rw [readable] at unread
        cases unread
  · intro plain
    -- the field is absent or the number 1
    have field : envelope.get "version" = none ∨ envelope.get "version" = some (.int 1) := by
      cases here : envelope.get "version" with
      | none => exact .inl rfl
      | some version =>
        rw [versionOf_of_get here] at legacy
        rcases read_as_one_iff.mp legacy with rfl | taken
        · exact .inr rfl
        · exact absurd taken (plain version here)
    refine ⟨fun version here one _ => ?_, fun _ => field, fun records read => ?_⟩
    · rcases field with absent | first
      · rw [absent] at here
        cases here
      · rw [first] at here
        exact absurd (Option.some.inj here).symm one
    · rw [loaded] at read
      rcases migrateV1_of_some store io (.envelope envelope) decoded
        with ⟨migrated, updatedAt, created, saved⟩ | unsaved | unsaved
      · -- the file was rewritten with the number 2
        rw [saved] at read
        injection read with _ kept
        injection kept with kept
        rw [← kept, versionOf_toValue] at legacy
        have newer : ¬ currentVersion = 1 := by decide
        exact absurd legacy newer
      · rw [unsaved] at read
        cases read
      · rw [unsaved] at read
        cases read

/-- The load keeps to the versions exactly where no other version is read as 1 in front of a list
of URLs. -/
theorem load_guards_version_iff (store : RecordStore) (io : Io) (envelope : Json) :
    GuardsVersion store io envelope ↔
      (∀ version, envelope.get "version" = some version → ¬ TakenForOne version) ∨
        processedUrls envelope = none ∨ io.lock = false ∨ io.read = false := by
  by_cases blocked : io.lock = false ∨ io.read = false
  · exact iff_of_true (guards_of_refused (e := .io) blocked (load_unreadable blocked)) (.inr (.inr blocked))
  · rw [not_or, Bool.not_eq_false, Bool.not_eq_false] at blocked
    rcases blocked with ⟨locked, readable⟩
    by_cases legacy : versionOf envelope = 1
    · cases decoded : processedUrls envelope with
      | none =>
        have older : ¬ versionOf envelope = currentVersion := by rw [legacy]; decide
        have loaded := load_readable store envelope locked readable
        rw [if_neg older, if_pos legacy, migrateV1_of_none decoded] at loaded
        exact iff_of_true (guards_of_refused (by exact True.intro) loaded) (.inr (.inl rfl))
      | some urls =>
        rw [guards_legacy_iff locked readable legacy decoded]
        simp [locked, readable]
    · refine iff_of_true ?_ (.inl fun version field taken =>
        legacy (versionOf_of_takenForOne field taken))
      by_cases current : versionOf envelope = currentVersion
      · exact guards_current locked readable current
      · have loaded := load_readable store envelope locked readable
        rw [if_neg current, if_neg legacy] at loaded
        exact guards_of_refused (by exact True.intro) loaded

namespace DispatchRuns

/-- A file of a later format, with a version above 32 bits. -/
def later : Json := .obj [("version", .int 4294967297), ("processed_urls", .arr [])]

/-- It is migrated as if its version were 1, and its bytes are replaced. -/
theorem later_migrated : (∃ records saved, RecordStore.load ⟨"example.com"⟩ {} (.envelope later) =
      (.ok records, .envelope saved) ∧ saved.get "version" = some (.int 2)) ∧
    ¬ GuardsVersion ⟨"example.com"⟩ {} later := by
  have legacy : versionOf later = 1 := by decide
  have decoded : processedUrls later = some [] := rfl
  refine ⟨⟨_, _, rfl, rfl⟩, fun guards => ?_⟩
  have taken : TakenForOne (.int 4294967297) :=
    .inr ⟨4294967297, rfl, by decide, by decide, by decide⟩
  exact (guards_legacy_iff rfl rfl legacy decoded).mp guards _ rfl taken

end DispatchRuns

end Webfang.Export
