import Webfang.Domain.Sha256Hex
import Webfang.Vault.NoteRepository

/-!
# The resource store

The tables `resources` and `chunks` of `infrastructure/persistence/sqlite.rs`, with
`save_resource`, `save_chunk` and `resource_exists_by_hash`. A statement that fails leaves
the tables as they were. Row times and `metadata_json` are left out: no query reads them.
-/
namespace Webfang.Ingestion

open Domain
open Vault (F32 Byte f32SliceToBytes)

/-- `Persistence` and `Ingestion` are raised here; the other errors come from the downloader
and the processor. -/
inductive ScraperError where
  | persistence (message : String)
  | ingestion (message : String)
  | other (message : String)
  deriving DecidableEq, Repr

/-- Where a repository call fails for a reason outside the tables: no pooled connection, the
blocking task lost, or an SQLite error other than a constraint. -/
inductive CallFailure where
  | pool (cause : String)
  | interact (cause : String)
  | statement (cause : String)
  deriving DecidableEq, Repr

def CallFailure.error (operation : String) : CallFailure → ScraperError
  | .pool cause => .persistence ("obtener conexión del pool: " ++ cause)
  | .interact cause => .persistence (operation ++ " (interact): " ++ cause)
  | .statement cause => .persistence (operation ++ ": " ++ cause)

structure ResourceRow where
  url : String
  title : String
  contentHash : String
  sizeBytes : Nat
  status : String
  deriving DecidableEq, Repr

structure ChunkRow where
  id : String
  resourceUrl : String
  chunkIndex : Nat
  content : String
  embeddingVector : Option (List Byte)
  deriving DecidableEq, Repr

/-- The rows of the two tables, oldest first. -/
structure Database where
  resources : List ResourceRow
  chunks : List ChunkRow
  deriving DecidableEq, Repr

namespace Database

/-- The tables right after `setup_schema`. -/
def empty : Database := ⟨[], []⟩

/-- `SELECT url FROM resources WHERE content_hash = ?1 LIMIT 1`. -/
def urlByHash (db : Database) (contentHash : String) : Option String :=
  (db.resources.find? fun row => row.contentHash = contentHash).map ResourceRow.url

/-- `url` is the primary key of `resources`, so also what `REFERENCES` looks up. -/
def hasResource (db : Database) (url : String) : Bool :=
  db.resources.any fun row => row.url = url

def hasChunk (db : Database) (id : String) : Bool := db.chunks.any fun row => row.id = id

def resourceExistsByHash (db : Database) (failure : Option CallFailure) (contentHash : String) :
    Except ScraperError (Option String) :=
  match failure with
  | some cause => .error (cause.error "resource_exists_by_hash")
  | none => .ok (db.urlByHash contentHash)

/-- The outcome of `save_resource`: its URL and the tables. `lookup` is what befalls the
query for the hash, `insert` what befalls the statement. -/
def saveResource (db : Database) (lookup insert : Option CallFailure)
    (url title contentHash : String) (sizeBytes : Nat) : Except ScraperError (String × Database) :=
  match db.resourceExistsByHash lookup contentHash with
  | .error e => .error e
  -- the hash is known: nothing is inserted, whichever URL the row has
  | .ok (some existing) => .ok (existing, db)
  | .ok none =>
    match insert with
    | some cause => .error (cause.error "save_resource")
    | none =>
      -- a plain INSERT: the key conflict is an error, not an update
      if db.hasResource url then
        .error (.persistence "save_resource: UNIQUE constraint failed: resources.url")
      else
        .ok (url, { db with
          resources := db.resources ++ [⟨url, title, contentHash, sizeBytes, "active"⟩] })

/-- `save_chunk`. `OR IGNORE` passes over a known id, and over nothing else: with the foreign
keys enforced, a row whose resource is missing is an error. -/
def saveChunk (db : Database) (foreignKeys : Bool) (failure : Option CallFailure)
    (id resourceUrl : String) (chunkIndex : Nat) (content : String)
    (embedding : Option (List F32)) : Except ScraperError Database :=
  match failure with
  | some cause => .error (cause.error "save_chunk")
  | none =>
    if db.hasChunk id then .ok db
    else if foreignKeys && !db.hasResource resourceUrl then
      .error (.persistence "save_chunk: FOREIGN KEY constraint failed")
    else
      .ok { db with chunks :=
        db.chunks ++ [⟨id, resourceUrl, chunkIndex, content, embedding.map f32SliceToBytes⟩] }

/-! ### What the lookups find -/

theorem hasResource_iff {db : Database} {url : String} :
    db.hasResource url = true ↔ ∃ row ∈ db.resources, row.url = url := by
  simp [hasResource]

theorem hasChunk_iff {db : Database} {id : String} :
    db.hasChunk id = true ↔ ∃ row ∈ db.chunks, row.id = id := by
  simp [hasChunk]

theorem urlByHash_eq_some {db : Database} {contentHash url : String}
    (found : db.urlByHash contentHash = some url) :
    ∃ row ∈ db.resources, row.contentHash = contentHash ∧ row.url = url := by
  obtain ⟨row, here, same⟩ := Option.map_eq_some_iff.mp found
  exact ⟨row, List.mem_of_find?_eq_some here, by simpa using List.find?_some here, same⟩

theorem urlByHash_eq_none {db : Database} {contentHash : String} :
    db.urlByHash contentHash = none ↔ ∀ row ∈ db.resources, row.contentHash ≠ contentHash := by
  simp [urlByHash, List.find?_eq_none]

end Database

/-- What `save_resource` can do: fail with the tables as they were, find the hash, or append
the one row. -/
theorem Database.saveResource_ok {db db' : Database} {lookup insert : Option CallFailure}
    {url title contentHash saved : String} {sizeBytes : Nat}
    (done : db.saveResource lookup insert url title contentHash sizeBytes = .ok (saved, db')) :
    lookup = none ∧
      ((db.urlByHash contentHash = some saved ∧ db' = db) ∨
       (db.urlByHash contentHash = none ∧ insert = none ∧ db.hasResource url = false ∧
         saved = url ∧ db' = { db with
           resources := db.resources ++ [⟨url, title, contentHash, sizeBytes, "active"⟩] })) := by
  cases lookup with
  | some cause => simp [saveResource, resourceExistsByHash] at done
  | none =>
    refine ⟨rfl, ?_⟩
    cases known : db.urlByHash contentHash with
    | some existing =>
      simp only [saveResource, resourceExistsByHash, known, Except.ok.injEq, Prod.mk.injEq] at done
      exact .inl ⟨by rw [done.1], done.2.symm⟩
    | none =>
      cases insert with
      | some cause => simp [saveResource, resourceExistsByHash, known] at done
      | none =>
        simp only [saveResource, resourceExistsByHash, known] at done
        split at done
        next => cases done
        next fresh =>
          cases done
          exact .inr ⟨rfl, rfl, by simpa using fresh, rfl, rfl⟩

theorem Database.saveChunk_ok {db db' : Database} {foreignKeys : Bool} {failure : Option CallFailure}
    {id resourceUrl content : String} {chunkIndex : Nat} {embedding : Option (List F32)}
    (saved : db.saveChunk foreignKeys failure id resourceUrl chunkIndex content embedding = .ok db') :
    db'.resources = db.resources ∧ ∀ chunk ∈ db.chunks, chunk ∈ db'.chunks := by
  unfold saveChunk at saved
  cases failure with
  | some cause => cases saved
  | none =>
    simp only at saved
    split at saved
    next => cases saved; exact ⟨rfl, fun _ stored => stored⟩
    next =>
      split at saved
      next => cases saved
      next => cases saved; exact ⟨rfl, fun _ stored => List.mem_append_left _ stored⟩

end Webfang.Ingestion
