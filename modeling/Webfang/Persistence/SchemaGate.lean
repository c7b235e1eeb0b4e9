import Webfang.Library.Batch
import Webfang.Ingestion.SqliteRepository

/-!
# The schema version gate

The entry points of `infrastructure/persistence/sqlite.rs` and `fingerprint.rs` on a database
file that carries a version of its own. The two schema setups ask the gate before their DDL;
the pragmas of a new connection come before the gate, and `prune_older_than` never asks it.
-/
namespace Webfang.Persistence

open Library.Batch
open Ingestion (ScraperError)

def schemaVersion : Int := 1

/-- What of the database file the statements below read or change. `wal` is the journal mode
kept in the header, `schemaCookie` the header field that `VACUUM` counts up. -/
structure DbFile (Content : Type) where
  userVersion : Int
  wal : Bool
  schemaCookie : UInt32
  content : Content
  deriving DecidableEq

inductive SchemaPart where
  | vectors
  | fingerprints
  deriving DecidableEq, Repr

/-- The tables `prune_older_than` deletes from, in its order. -/
inductive Pruned where
  | chunks
  | resources
  | noteChunks
  | notes
  deriving DecidableEq, Repr

inductive Statement where
  | journalModeWal
  | synchronousNormal
  | cacheSize
  | setUserVersion
  | ddl (part : SchemaPart)
  | foreignKeysOn
  | deleteOlder (table : Pruned) (cutoff : String)
  | vacuum
  deriving DecidableEq, Repr

/-- What SQLite answers while one entry point runs. `toWal` is whether a file in another
journal mode can be switched; a deletion has its count of rows. -/
structure Sqlite (Content : Type) where
  unavailable : Option String
  toWal : Except String Bool
  readVersion : Option String
  writeVersion : Option String
  ddl : SchemaPart → Content → Except String Content
  deleteOlder : Pruned → String → Content → Except String (Content × Nat)
  vacuum : Option String

section Exec

variable {Content : Type} (db : Sqlite Content)

def exec : Statement → DbFile Content → Except String (DbFile Content × Nat)
  | .journalModeWal, file =>
    if file.wal then .ok (file, 0) else db.toWal.map fun wal => ({ file with wal }, 0)
  -- these belong to the connection
  | .synchronousNormal, file | .cacheSize, file | .foreignKeysOn, file => .ok (file, 0)
  | .setUserVersion, file =>
    match db.writeVersion with
    | some e => .error e
    | none => .ok ({ file with userVersion := schemaVersion }, 0)
  | .ddl part, file => (db.ddl part file.content).map fun content => ({ file with content }, 0)
  | .deleteOlder table cutoff, file =>
    (db.deleteOlder table cutoff file.content).map fun (content, n) => ({ file with content }, n)
  | .vacuum, file =>
    match db.vacuum with
    | some e => .error e
    | none => .ok ({ file with schemaCookie := file.schemaCookie + 1 }, 0)

variable [DecidableEq Content]

abbrev Executed (Content : Type) := Outcome (DbFile Content) Statement ScraperError

def refused (file : DbFile Content) (message : String) : Executed Content :=
  ⟨file, [], .error (.persistence message)⟩

/-- A batch of statements, its error under the caller's words. -/
def execute (words : String) (statements : List Statement) (file : DbFile Content) :
    Executed Content :=
  (run (exec db) statements file).mapError fun e => .persistence (words ++ e)

/-! ### The entry points -/

def initPragmas : List Statement := [.journalModeWal, .synchronousNormal, .cacheSize]

/-- `pool.get()`: a connection of the pool, or a new one, on which the hook runs first. -/
def get (words : String) (pooled : Bool) (file : DbFile Content) : Executed Content :=
  match db.unavailable with
  | some e => refused file (words ++ e)
  | none =>
    if pooled then ⟨file, [], .ok 0⟩ else execute db (words ++ "init pragmas: ") initPragmas file

def incompatible (found : Int) : String :=
  "base de datos con versión de esquema " ++ toString found ++ ", incompatible con la versión " ++
    toString schemaVersion ++ " de webfang; actualizá webfang o usá una base de datos distinta " ++
    "(nunca se modifica una base desconocida)"

def enforceSchemaVersion (file : DbFile Content) : Executed Content :=
  match db.readVersion with
  | some e => refused file ("leer user_version: " ++ e)
  | none =>
    if file.userVersion ≠ 0 ∧ file.userVersion ≠ schemaVersion then
      refused file (incompatible file.userVersion)
    else if file.userVersion = schemaVersion then ⟨file, [], .ok 0⟩
    else execute db "escribir user_version: " [.setUserVersion] file

def gatedSetup (words ddlWords : String) (part : SchemaPart) (pooled : Bool)
    (file : DbFile Content) : Executed Content :=
  (get db words pooled file).andThen fun file =>
    (enforceSchemaVersion db file).andThen (execute db ddlWords [.ddl part])

def setupSchema (pooled : Bool) (file : DbFile Content) : Executed Content :=
  gatedSetup db "obtener conexión del pool: " "ddl schema: " .vectors pooled file

def setupFingerprints (pooled : Bool) (file : DbFile Content) : Executed Content :=
  gatedSetup db "obtener conexión SQLite: " "ddl fingerprint: " .fingerprints pooled file

def pruneStatements (cutoff : String) : List Statement :=
  [.foreignKeysOn, .deleteOlder .chunks cutoff, .deleteOlder .resources cutoff,
    .deleteOlder .noteChunks cutoff, .deleteOlder .notes cutoff, .vacuum]

/-- No gate: the rows of any version are deleted. -/
def pruneOlderThan (cutoff : String) (pooled : Bool) (file : DbFile Content) : Executed Content :=
  (get db "retention: obtener conexión del pool: " pooled file).andThen
    (execute db "retention: " (pruneStatements cutoff))

/-- The retention step builds its own pool, and takes a failed prune for none. -/
def pruneVaultDb (cutoff : String) (file : DbFile Content) : DbFile Content × Nat :=
  let pruned := pruneOlderThan db cutoff false file
  (pruned.state, match pruned.result with | .ok n => n | .error _ => 0)

end Exec

/-! ### Sequences of entry points -/

inductive EntryPoint where
  | connect
  | setupSchema (pooled : Bool)
  | setupFingerprints (pooled : Bool)
  /-- As the retention step calls it, on a pool of its own. -/
  | pruneOlderThan (cutoff : String)
  deriving DecidableEq, Repr

def EntryPoint.writes : EntryPoint → Bool
  | .connect => false
  | _ => true

/-- The entry point would run its statements on a connection that is not open yet. -/
def EntryPoint.opens : EntryPoint → Bool
  | .setupSchema pooled | .setupFingerprints pooled => !pooled
  | .connect | .pruneOlderThan _ => true

structure Entry (Content : Type) where
  db : Sqlite Content
  point : EntryPoint

section Runs

variable {Content : Type} [DecidableEq Content]

def Entry.run (entry : Entry Content) (file : DbFile Content) : Executed Content :=
  match entry.point with
  | .connect => get entry.db "obtener conexión del pool: " false file
  | .setupSchema pooled => setupSchema entry.db pooled file
  | .setupFingerprints pooled => setupFingerprints entry.db pooled file
  | .pruneOlderThan cutoff => pruneOlderThan entry.db cutoff false file

/-- The file is left alone by the call, which fails if it came to write. -/
def LeftAlone (entry : Entry Content) (outcome : Executed Content) : Prop :=
  outcome.changed = [] ∧ (entry.point.writes = true → outcome.failed = true)

/-- No entry point of the sequence changes the file, and every one that would write fails. -/
def Untouched : DbFile Content → List (Entry Content) → Prop
  | _, [] => True
  | file, entry :: rest =>
    LeftAlone entry (entry.run file) ∧ Untouched (entry.run file).state rest

end Runs

/-! ### What leaves the file alone -/

section Spared

variable {Content : Type}

/-- A new connection turns the file over to WAL. -/
def Switches (db : Sqlite Content) (file : DbFile Content) : Prop :=
  db.unavailable = none ∧ file.wal = false ∧ db.toWal = .ok true

/-- A new connection is opened, pragmas and all. -/
def Connects (db : Sqlite Content) (file : DbFile Content) : Prop :=
  db.unavailable = none ∧ (file.wal = true ∨ ∃ wal, db.toWal = .ok wal)

variable [DecidableEq Content] {db : Sqlite Content} {file : DbFile Content}

/-- What the entry point needs to leave a file of another version alone: no new connection
switches its journal mode, and SQLite refuses a prune before it has removed anything. -/
structure Spared (file : DbFile Content) (entry : Entry Content) : Prop where
  mode : entry.point.opens = true → ¬ Switches entry.db file
  prune : ∀ cutoff, entry.point = .pruneOlderThan cutoff → Connects entry.db file →
    Refuses (exec entry.db) file (pruneStatements cutoff)

theorem get_changed_iff (words : String) :
    (get db words false file).changed = [] ↔ ¬ Switches db file := by
  unfold get Switches
  cases offered : db.unavailable with
  | some e => exact ⟨fun _ switches => absurd switches.1 (by simp), fun _ => rfl⟩
  | none =>
    simp only [Bool.false_eq_true, if_false, execute, mapError_changed, run_quiet_iff, initPragmas,
      Idle, exec]
    rcases file with ⟨userVersion, wal, cookie, content⟩
    cases wal with
    | true => simp
    | false =>
      cases mode : db.toWal with
      | error e => simp [Except.map]
      | ok switched => cases switched <;> simp [Except.map]

theorem execute_state_of_quiet {words : String} {statements : List Statement} (file : DbFile Content)
    (quiet : (execute db words statements file).changed = []) :
    (execute db words statements file).state = file := by
  have ran : (run (exec db) statements file).changed = [] := quiet
  exact run_state_of_quiet ran

theorem get_state_of_quiet {words : String} {pooled : Bool}
    (quiet : (get db words pooled file).changed = []) : (get db words pooled file).state = file := by
  unfold get at quiet ⊢
  cases offered : db.unavailable with
  | some e => rfl
  | none =>
    cases pooled with
    | true => rfl
    | false =>
      simp only [offered, Bool.false_eq_true, if_false] at quiet ⊢
      exact execute_state_of_quiet file quiet

theorem enforceSchemaVersion_state_of_quiet (file : DbFile Content)
    (quiet : (enforceSchemaVersion db file).changed = []) :
    (enforceSchemaVersion db file).state = file := by
  unfold enforceSchemaVersion at quiet ⊢
  cases read : db.readVersion with
  | some e => rfl
  | none =>
    simp only [read] at quiet ⊢
    split
    next => rfl
    next known =>
      rw [if_neg known] at quiet
      split
      next => rfl
      next unversioned =>
        rw [if_neg unversioned] at quiet
        exact execute_state_of_quiet file quiet

theorem get_passed_iff (words : String) :
    (get db words false file).failed = false ↔ Connects db file := by
  unfold get Connects
  cases offered : db.unavailable with
  | some e => exact ⟨nofun, nofun⟩
  | none =>
    simp only [Bool.false_eq_true, if_false, execute, mapError_failed, initPragmas, run, single, exec]
    rcases file with ⟨userVersion, wal, cookie, content⟩
    cases wal with
    | true => simp [Outcome.andThen, Outcome.failed, Except.map]
    | false =>
      cases mode : db.toWal <;> simp [Outcome.andThen, Outcome.failed, Except.map]

/-- The gate refuses a version that is neither none nor its own, and writes nothing. -/
theorem enforceSchemaVersion_refuses (unversioned : file.userVersion ≠ 0)
    (foreign : file.userVersion ≠ schemaVersion) :
    (enforceSchemaVersion db file).changed = [] ∧ (enforceSchemaVersion db file).failed = true := by
  unfold enforceSchemaVersion
  cases db.readVersion with
  | some e => exact ⟨rfl, rfl⟩
  | none =>
    dsimp only
    rw [if_pos ⟨unversioned, foreign⟩]
    exact ⟨rfl, rfl⟩

/-- A setup of a schema changes such a file only by the pragmas of its connection, and fails. -/
theorem gatedSetup_refuses (words ddlWords : String) (part : SchemaPart) (pooled : Bool)
    (unversioned : file.userVersion ≠ 0) (foreign : file.userVersion ≠ schemaVersion) :
    ((gatedSetup db words ddlWords part pooled file).changed = [] ↔
      (get db words pooled file).changed = []) ∧ ((get db words pooled file).changed = [] →
      (gatedSetup db words ddlWords part pooled file).failed = true) := by
  unfold gatedSetup
  cases failed : (get db words pooled file).failed with
  | true =>
    rw [andThen_of_failed failed]
    exact ⟨Iff.rfl, fun _ => failed⟩
  | false =>
    obtain ⟨changed, -, later⟩ := andThen_changed failed fun file =>
      (enforceSchemaVersion db file).andThen (execute db ddlWords [.ddl part])
    rw [changed, later, List.append_eq_nil_iff]
    refine ⟨⟨And.left, fun quiet => ⟨quiet, ?_⟩⟩, fun quiet => ?_⟩
    all_goals
      -- the connection left the file as it was, so the gate finds its version
      rw [get_state_of_quiet quiet]
      have gate : (enforceSchemaVersion db file).changed = [] ∧ (enforceSchemaVersion db file).failed = true :=
        enforceSchemaVersion_refuses unversioned foreign
      rw [andThen_of_failed gate.2]
    · exact gate.1
    · exact gate.2

theorem pruneOlderThan_leftAlone {cutoff : String} :
    ((pruneOlderThan db cutoff false file).changed = [] ∧
        (pruneOlderThan db cutoff false file).failed = true) ↔
      ¬ Switches db file ∧ (Connects db file → Refuses (exec db) file (pruneStatements cutoff)) := by
  unfold pruneOlderThan
  rw [← get_changed_iff "retention: obtener conexión del pool: ",
    ← get_passed_iff "retention: obtener conexión del pool: "]
  cases failed : (get db "retention: obtener conexión del pool: " false file).failed with
  | true =>
    rw [andThen_of_failed failed]
    exact ⟨fun ⟨quiet, _⟩ => ⟨quiet, nofun⟩, fun ⟨quiet, _⟩ => ⟨quiet, failed⟩⟩
  | false =>
    obtain ⟨changed, -, later⟩ := andThen_changed failed
      (execute db "retention: " (pruneStatements cutoff))
    rw [changed, later, List.append_eq_nil_iff, and_assoc]
    refine and_congr_right fun quiet => ?_
    rw [get_state_of_quiet quiet]
    simp only [execute, mapError_changed, mapError_failed, run_refused_iff, forall_const]

theorem Entry.run_state_of_quiet {entry : Entry Content} (quiet : (entry.run file).changed = []) :
    (entry.run file).state = file := by
  -- after the connection comes the gate, and after the gate the DDL
  have setup {words ddlWords : String} {part : SchemaPart} {pooled : Bool}
      (quiet : (gatedSetup entry.db words ddlWords part pooled file).changed = []) :
      (gatedSetup entry.db words ddlWords part pooled file).state = file :=
    andThen_state_of_quiet get_state_of_quiet
      (fun file => andThen_state_of_quiet (enforceSchemaVersion_state_of_quiet file)
        execute_state_of_quiet) quiet
  unfold Entry.run at quiet ⊢
  cases here : entry.point with
  | connect =>
    rw [here] at quiet
    exact get_state_of_quiet quiet
  | setupSchema pooled =>
    rw [here] at quiet
    exact setup quiet
  | setupFingerprints pooled =>
    rw [here] at quiet
    exact setup quiet
  | pruneOlderThan cutoff =>
    rw [here] at quiet
    exact andThen_state_of_quiet get_state_of_quiet execute_state_of_quiet quiet

theorem get_changed_pooled {words : String} : (get db words true file).changed = [] := by
  unfold get
  cases db.unavailable <;> rfl

theorem leftAlone_iff {entry : Entry Content} (unversioned : file.userVersion ≠ 0)
    (foreign : file.userVersion ≠ schemaVersion) :
    LeftAlone entry (entry.run file) ↔ Spared file entry := by
  rcases entry with ⟨db, point⟩
  -- a setup is left to its connection, since the gate stops it
  have setup {words ddlWords : String} {part : SchemaPart} {pooled : Bool} :
      ((gatedSetup db words ddlWords part pooled file).changed = [] ∧
        (true = true → (gatedSetup db words ddlWords part pooled file).failed = true)) ↔
      ((!pooled) = true → ¬ Switches db file) := by
    obtain ⟨same, fails⟩ := gatedSetup_refuses words ddlWords part pooled unversioned foreign
    rw [same]
    cases pooled with
    | true => exact ⟨fun _ => nofun, fun _ => ⟨get_changed_pooled, fun _ => fails get_changed_pooled⟩⟩
    | false =>
      rw [get_changed_iff]
      rw [get_changed_iff] at fails
      exact ⟨fun quiet _ => quiet.1, fun spared => ⟨spared rfl, fun _ => fails (spared rfl)⟩⟩
  cases point with
  | connect =>
    refine ⟨fun alone => ⟨fun _ => (get_changed_iff _).mp alone.1, nofun⟩, fun spared => ?_⟩
    exact ⟨(get_changed_iff _).mpr (spared.mode rfl), nofun⟩
  | setupSchema pooled =>
    exact ⟨fun alone => ⟨setup.mp alone, nofun⟩, fun spared => setup.mpr spared.mode⟩
  | setupFingerprints pooled =>
    exact ⟨fun alone => ⟨setup.mp alone, nofun⟩, fun spared => setup.mpr spared.mode⟩
  | pruneOlderThan cutoff =>
    constructor
    · intro alone
      obtain ⟨mode, prune⟩ := pruneOlderThan_leftAlone.mp ⟨alone.1, alone.2 rfl⟩
      refine ⟨fun _ => mode, ?_⟩
      rintro _ ⟨⟩
      exact prune
    · intro spared
      obtain ⟨quiet, failed⟩ := pruneOlderThan_leftAlone.mpr ⟨spared.mode rfl, spared.prune cutoff rfl⟩
      exact ⟨quiet, fun _ => failed⟩

/-- A sequence of entry points leaves a file of another version alone exactly when each of them
is spared: its connection does not switch the journal mode, and SQLite refuses its prune. -/
theorem untouched_iff (file : DbFile Content) (unversioned : file.userVersion ≠ 0)
    (foreign : file.userVersion ≠ schemaVersion) (entries : List (Entry Content)) :
    Untouched file entries ↔ ∀ entry ∈ entries, Spared file entry := by
  induction entries with
  | nil => exact ⟨nofun, fun _ => trivial⟩
  | cons entry rest ih =>
    unfold Untouched
    rw [List.forall_mem_cons, ← leftAlone_iff unversioned foreign]
    refine and_congr_right fun alone => ?_
    rw [entry.run_state_of_quiet alone.1]
    exact ih

end Spared

/-! A database of version 99 with two resources, each kept by the time it was created at. -/

namespace ForeignVersion

def sqlite : Sqlite (List String) where
  unavailable := none
  toWal := .ok true
  readVersion := none
  writeVersion := none
  ddl _ rows := .ok rows
  deleteOlder table cutoff rows :=
    match table with
    | .resources =>
      let kept := rows.filter fun created => !decide (created < cutoff)
      .ok (kept, rows.length - kept.length)
    | _ => .ok (rows, 0)
  vacuum := none

/-- As `sqlite`, where the first table is missing. -/
def tableless : Sqlite (List String) :=
  { sqlite with deleteOlder := fun _ _ _ => .error "no such table: chunks" }

def file : DbFile (List String) := ⟨99, true, 0, ["2020-01-01T00:00:00+00:00", "2026-01-01T00:00:00+00:00"]⟩

def cutoff : String := "2025-01-01T00:00:00+00:00"

/-- The retention step deletes the older row, and reports it. -/
theorem retention_prunes_foreign_version :
    pruneVaultDb sqlite cutoff file = (⟨99, true, 1, ["2026-01-01T00:00:00+00:00"]⟩, 1) ∧
    ¬ ∀ file : DbFile (List String), file.userVersion ≠ 0 → file.userVersion ≠ schemaVersion →
      ∀ entries, Untouched file entries := by
  refine ⟨by decide, fun untouched => ?_⟩
  have quiet : (pruneOlderThan sqlite cutoff false file).changed = [] :=
    (untouched file (by decide) (by decide) [⟨sqlite, .pruneOlderThan cutoff⟩]).1.1
  revert quiet
  decide

def entries : List (Entry (List String)) :=
  [⟨sqlite, .connect⟩, ⟨sqlite, .setupSchema true⟩, ⟨tableless, .pruneOlderThan cutoff⟩,
    ⟨sqlite, .setupFingerprints false⟩]

theorem tableless_untouched : Untouched file entries := by
  refine (untouched_iff file (by decide) (by decide) entries).mpr ?_
  have wal (db : Sqlite (List String)) : ¬ Switches db file := nofun
  simp only [entries, List.forall_mem_cons]
  refine ⟨⟨fun _ => wal _, nofun⟩, ⟨fun _ => wal _, nofun⟩, ⟨fun _ => wal _, ?_⟩,
    ⟨fun _ => wal _, nofun⟩, nofun⟩
  rintro _ ⟨⟩ -
  exact ⟨rfl, trivial⟩

end ForeignVersion

end Webfang.Persistence
