/-!
# The note index

The tables `notes` and `note_chunks` with their operations, of
`infrastructure/persistence/sqlite.rs`, and `VaultSearchService::sync_vault` of
`application/vault_search.rs` over them. No chunking, embedding or database step fails. Row
times and the key of a chunk row are left out: no query reads them.
-/
namespace Webfang.Vault

/-! ### Embedding blobs -/

/-- An `f32` by its bits. -/
abbrev F32 := BitVec 32

abbrev Byte := BitVec 8

def toLeBytes (f : F32) : List Byte :=
  [f.extractLsb' 0 8, f.extractLsb' 8 8, f.extractLsb' 16 8, f.extractLsb' 24 8]

def f32SliceToBytes (v : List F32) : List Byte := v.flatMap toLeBytes

/-- `chunks_exact(4)` with `f32::from_le_bytes`. -/
def decodeChunks : List Byte → List F32
  | a :: b :: c :: d :: rest => (d ++ c ++ b ++ a) :: decodeChunks rest
  | _ => []

/-- `None` stands for the error on a blob of another length. -/
def bytesToF32Vec (bytes : List Byte) : Option (List F32) :=
  if bytes.length % 4 = 0 then some (decodeChunks bytes) else none

/-! ### The tables -/

structure NoteRow where
  id : Nat
  path : String
  contentHash : String
  mtimeSecs : Int
  deriving DecidableEq, Repr

structure NoteChunkRow where
  noteId : Nat
  chunkIndex : Nat
  content : String
  embeddingVector : Option (List Byte)
  deriving DecidableEq, Repr

structure NoteRepository where
  notes : List NoteRow
  noteChunks : List NoteChunkRow
  /-- `AUTOINCREMENT`: the largest row id ever given to a note. -/
  lastNoteId : Nat
  deriving Repr

structure NoteChunkVector where
  notePath : String
  content : String
  chunkIndex : Nat
  embedding : List F32
  deriving DecidableEq, Repr

structure IndexedNoteMeta where
  path : String
  contentHash : String
  mtimeSecs : Int
  deriving DecidableEq, Repr

namespace NoteRepository

def empty : NoteRepository := ⟨[], [], 0⟩

/-- `INSERT INTO notes … ON CONFLICT(path) DO UPDATE`. -/
def upsertNote (db : NoteRepository) (path contentHash : String) (mtimeSecs : Int) :
    NoteRepository :=
  if db.notes.any fun row => row.path = path then
    { db with notes := db.notes.map fun row =>
        if row.path = path then { row with contentHash := contentHash, mtimeSecs := mtimeSecs }
        else row }
  else
    { db with
      notes := db.notes ++ [⟨db.lastNoteId + 1, path, contentHash, mtimeSecs⟩]
      lastNoteId := db.lastNoteId + 1 }

def noteId (db : NoteRepository) (path : String) : Option Nat :=
  (db.notes.find? fun row => row.path = path).map NoteRow.id

def indexNoteTransactional (db : NoteRepository) (path contentHash : String) (mtimeSecs : Int)
    (chunks : List (String × Option (List F32))) : NoteRepository :=
  let upserted := db.upsertNote path contentHash mtimeSecs
  match upserted.noteId path with
  | none => db
  | some id =>
    { upserted with
      noteChunks := upserted.noteChunks ++ chunks.zipIdx.map fun ((text, embedding), i) =>
        ⟨id, i, text, embedding.map f32SliceToBytes⟩ }

/-- The join of `load_all_vectors`, in some order. -/
def vectorRows (db : NoteRepository) : List (String × String × Nat × List Byte) :=
  db.notes.flatMap fun note =>
    (db.noteChunks.filter fun chunk => chunk.noteId = note.id).filterMap fun chunk =>
      chunk.embeddingVector.map fun blob => (note.path, chunk.content, chunk.chunkIndex, blob)

def loadAllVectors (db : NoteRepository) : Option (List NoteChunkVector) :=
  db.vectorRows.mapM fun (path, content, chunkIndex, bytes) =>
    (bytesToF32Vec bytes).map fun embedding => ⟨path, content, chunkIndex, embedding⟩

/-- `ON DELETE CASCADE` takes the chunks along. -/
def deleteNote (db : NoteRepository) (path : String) : NoteRepository :=
  { db with
    notes := db.notes.filter fun row => row.path ≠ path
    noteChunks := db.noteChunks.filter fun chunk =>
      !db.notes.any fun row => row.path = path && row.id = chunk.noteId }

def listIndexedNotes (db : NoteRepository) : List IndexedNoteMeta :=
  db.notes.map fun row => ⟨row.path, row.contentHash, row.mtimeSecs⟩

end NoteRepository

/-! ### Synchronisation -/

/-- A Markdown file of the vault. -/
structure NoteFile where
  path : String
  content : String
  mtimeSecs : Int
  deriving DecidableEq, Repr

/-- The files of a vault, told apart by their paths. -/
structure VaultFiles where
  files : List NoteFile
  distinct : (files.map NoteFile.path).Nodup

structure VaultNote where
  path : String
  content : String
  mtimeSecs : Int
  contentHash : String
  deriving DecidableEq, Repr

structure SyncSummary where
  indexed : Nat
  updated : Nat
  deleted : Nat
  unchanged : Nat
  deriving DecidableEq, Repr

/-- The embedding model behind a run, which may be another one in the next run. -/
structure EmbeddingPort where
  embedBatch : List String → List (List F32)
  /-- One vector for each chunk. -/
  onePerChunk : ∀ texts, (embedBatch texts).length = texts.length

/-- The digest and the chunker. -/
structure VaultPorts where
  sha256Hex : String → String
  chunkText : String → List String

namespace VaultPorts

variable (ports : VaultPorts) (embedding : EmbeddingPort)

def readVaultNotes (vault : VaultFiles) : List VaultNote :=
  vault.files.map fun file =>
    ⟨file.path, file.content, file.mtimeSecs, ports.sha256Hex file.content⟩

def indexNote (db : NoteRepository) (path content contentHash : String) (mtimeSecs : Int) :
    NoteRepository :=
  let chunkTexts := ports.chunkText content
  let embeddings := if chunkTexts.isEmpty then [] else embedding.embedBatch chunkTexts
  db.indexNoteTransactional path contentHash mtimeSecs
    ((chunkTexts.zip embeddings).map fun (text, embedding) => (text, some embedding))

/-- The loop body over the notes of the vault; `indexed` was read before the loop. -/
def syncNote (indexed : List IndexedNoteMeta) (state : NoteRepository × SyncSummary)
    (note : VaultNote) : NoteRepository × SyncSummary :=
  let (db, summary) := state
  match indexed.find? fun known => known.path = note.path with
  | none =>
    (ports.indexNote embedding db note.path note.content note.contentHash note.mtimeSecs,
      { summary with indexed := summary.indexed + 1 })
  | some known =>
    if known.contentHash ≠ note.contentHash then
      (ports.indexNote embedding db note.path note.content note.contentHash note.mtimeSecs,
        { summary with updated := summary.updated + 1 })
    else (db, { summary with unchanged := summary.unchanged + 1 })

/-- The loop body over the indexed notes. -/
def removeStale (vaultPaths : List String) (state : NoteRepository × SyncSummary)
    (known : IndexedNoteMeta) : NoteRepository × SyncSummary :=
  let (db, summary) := state
  if known.path ∈ vaultPaths then (db, summary)
  else (db.deleteNote known.path, { summary with deleted := summary.deleted + 1 })

def syncVault (db : NoteRepository) (vault : VaultFiles) : NoteRepository × SyncSummary :=
  let notes := ports.readVaultNotes vault
  let indexed := db.listIndexedNotes
  let vaultPaths := notes.map VaultNote.path
  let updated := notes.foldl (ports.syncNote embedding indexed) (db, ⟨0, 0, 0, 0⟩)
  indexed.foldl (removeStale vaultPaths) updated

end VaultPorts

end Webfang.Vault
