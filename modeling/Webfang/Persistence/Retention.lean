import Webfang.Library.KeyedList
import Webfang.Persistence.SchemaGate

/-!
# Retention of the vault database

The four tables of `infrastructure/persistence/sqlite.rs` with the `created_at` of their rows, the
statements of `prune_older_than` on them, and the calls that fill them. A row is dated when it is inserted and
keeps its date: the upsert of a note writes `updated_at` only. The tables without their dates are
those of the resource store and of the note index, and each call here is the call there with the
dates added. `updated_at` is left out, as no statement reads it.
-/
namespace Webfang.Persistence

open Ingestion Vault Library.Pruning Library.Batch

/-! ### The tables with their dates -/

/-- A row with its `created_at`, NULL where it has none. -/
structure Dated (Row : Type) where
  row : Row
  createdAt : Option String
  deriving DecidableEq, Repr

structure Tables where
  resources : List (Dated ResourceRow)
  chunks : List (Dated ChunkRow)
  notes : List (Dated NoteRow)
  noteChunks : List (Dated NoteChunkRow)
  lastNoteId : Nat
  deriving DecidableEq, Repr

namespace Tables

def empty : Tables := ⟨[], [], [], [], 0⟩

/-- The two tables of the resource store, without the dates. -/
def database (tables : Tables) : Database :=
  ⟨tables.resources.map Dated.row, tables.chunks.map Dated.row⟩

/-- The two tables of the note index, without the dates. -/
def noteRepository (tables : Tables) : NoteRepository :=
  ⟨tables.notes.map Dated.row, tables.noteChunks.map Dated.row, tables.lastNoteId⟩

def rowCount (tables : Tables) : Nat :=
  tables.resources.length + tables.chunks.length + tables.notes.length + tables.noteChunks.length

/-- The keys of `resources` and `notes`: an id is never given twice. -/
structure WellFormed (tables : Tables) : Prop where
  resourceKeys : (tables.resources.map fun resource => resource.row.url).Nodup
  noteKeys : (tables.notes.map fun note => note.row.id).Nodup
  noteIds : ∀ note ∈ tables.notes, note.row.id ≤ tables.lastNoteId

/-! ### Filling the tables

`now` is what `datetime('now')` gives when the statement runs. -/

variable (tables : Tables) (now : String)

def saveResource (lookup insert : Option CallFailure) (url title contentHash : String)
    (sizeBytes : Nat) : Except ScraperError (String × Tables) :=
  match tables.database.resourceExistsByHash lookup contentHash with
  | .error e => .error e
  | .ok (some existing) => .ok (existing, tables)
  | .ok none =>
    match insert with
    | some cause => .error (cause.error "save_resource")
    | none =>
      if tables.database.hasResource url then
        .error (.persistence "save_resource: UNIQUE constraint failed: resources.url")
      else
        .ok (url, { tables with resources :=
          tables.resources ++ [⟨⟨url, title, contentHash, sizeBytes, "active"⟩, some now⟩] })

def saveChunk (foreignKeys : Bool) (failure : Option CallFailure) (id resourceUrl : String)
    (chunkIndex : Nat) (content : String) (embedding : Option (List F32)) :
    Except ScraperError Tables :=
  match failure with
  | some cause => .error (cause.error "save_chunk")
  | none =>
    if tables.database.hasChunk id then .ok tables
    else if foreignKeys && !tables.database.hasResource resourceUrl then
      .error (.persistence "save_chunk: FOREIGN KEY constraint failed")
    else
      .ok { tables with chunks := tables.chunks ++
        [⟨⟨id, resourceUrl, chunkIndex, content, embedding.map f32SliceToBytes⟩, some now⟩] }

def upsertNote (path contentHash : String) (mtimeSecs : Int) : Tables :=
  if tables.notes.any fun note => note.row.path = path then
    -- the conflict clause leaves `created_at` as it is
    { tables with notes := tables.notes.map fun note =>
        if note.row.path = path then
          { note with row := { note.row with contentHash := contentHash, mtimeSecs := mtimeSecs } }
        else note }
  else
    { tables with
      notes := tables.notes ++ [⟨⟨tables.lastNoteId + 1, path, contentHash, mtimeSecs⟩, some now⟩]
      lastNoteId := tables.lastNoteId + 1 }

/-- The outcome of `save_note`: the row id, which the query after the upsert reads. -/
def saveNote (failure : Option CallFailure) (path contentHash : String) (mtimeSecs : Int) :
    Except ScraperError (Nat × Tables) :=
  match failure with
  | some cause => .error (cause.error "save_note")
  | none =>
    let upserted := tables.upsertNote now path contentHash mtimeSecs
    match upserted.noteRepository.noteId path with
    | none => .error (.persistence "save_note: Query returned no rows")
    | some id => .ok (id, upserted)

def saveNoteChunk (foreignKeys : Bool) (failure : Option CallFailure) (noteId chunkIndex : Nat)
    (content : String) (embedding : Option (List F32)) : Except ScraperError Tables :=
  match failure with
  | some cause => .error (cause.error "save_note_chunk")
  | none =>
    if foreignKeys && !tables.notes.any fun note => note.row.id = noteId then
      .error (.persistence "save_note_chunk: FOREIGN KEY constraint failed")
    else
      .ok { tables with noteChunks := tables.noteChunks ++
        [⟨⟨noteId, chunkIndex, content, embedding.map f32SliceToBytes⟩, some now⟩] }

/-- One transaction: the upsert, and the chunks of this indexing after those of earlier ones. -/
def indexNoteTransactional (path contentHash : String) (mtimeSecs : Int)
    (chunks : List (String × Option (List F32))) : Tables :=
  let upserted := tables.upsertNote now path contentHash mtimeSecs
  match upserted.noteRepository.noteId path with
  | none => tables
  | some id =>
    { upserted with
      noteChunks := upserted.noteChunks ++ chunks.zipIdx.map fun ((text, embedding), i) =>
        ⟨⟨id, i, text, embedding.map f32SliceToBytes⟩, some now⟩ }

def deleteNote (path : String) : Tables :=
  { tables with
    notes := tables.notes.filter fun note => note.row.path ≠ path
    noteChunks := tables.noteChunks.filter fun chunk =>
      !tables.notes.any fun note => note.row.path = path && note.row.id = chunk.row.noteId }

end Tables

/-! ### Pruning -/

section Pruning

variable {Day : Type} [LT Day] [DecidableLT Day]

/-- `created_at IS NOT NULL AND julianday(created_at) < julianday(?1)`. A text that is no date has
no Julian day, and the comparison is then NULL, which selects nothing. -/
def Dated.before {Row : Type} (julianday : String → Option Day) (cutoff : String)
    (dated : Dated Row) : Bool :=
  match dated.createdAt with
  | none => false
  | some createdAt =>
    match julianday createdAt, julianday cutoff with
    | some created, some limit => created < limit
    | _, _ => false

namespace Tables

variable (julianday : String → Option Day)

/-- The `DELETE` of `prune_older_than` on each table, with the rows it counts. A resource is not
deleted while a chunk refers to it; a note takes its chunks along, which are not counted. -/
def deleteOlder : Pruned → String → Tables → Except String (Tables × Nat)
  | .chunks, cutoff, tables =>
    let kept := childrenOfFresh (fun resource => resource.row.url)
      (fun chunk => chunk.row.resourceUrl) (Dated.before julianday cutoff) tables.resources tables.chunks
    .ok ({ tables with chunks := kept }, tables.chunks.length - kept.length)
  | .resources, cutoff, tables =>
    if tables.chunks.any fun chunk => tables.resources.any fun resource =>
        resource.before julianday cutoff && resource.row.url = chunk.row.resourceUrl then
      .error "FOREIGN KEY constraint failed"
    else
      let kept := tables.resources.filter fun resource => !resource.before julianday cutoff
      .ok ({ tables with resources := kept }, tables.resources.length - kept.length)
  | .noteChunks, cutoff, tables =>
    let kept := childrenOfFresh (fun note => note.row.id) (fun chunk => chunk.row.noteId)
      (Dated.before julianday cutoff) tables.notes tables.noteChunks
    .ok ({ tables with noteChunks := kept }, tables.noteChunks.length - kept.length)
  | .notes, cutoff, tables =>
    let kept := tables.notes.filter fun note => !note.before julianday cutoff
    .ok ({ tables with
      notes := kept
      noteChunks := tables.noteChunks.filter fun chunk =>
        !tables.notes.any fun note => note.before julianday cutoff && note.row.id = chunk.row.noteId },
      tables.notes.length - kept.length)

/-- SQLite on the tables, where it refuses nothing for a reason outside them. -/
def sqlite : Sqlite Tables where
  unavailable := none
  toWal := .ok true
  readVersion := none
  writeVersion := none
  ddl := fun _ tables => .ok tables
  deleteOlder := deleteOlder julianday
  vacuum := none

/-- The outcome of `prune_older_than` on a connection of the pool: the rows removed, and the tables. -/
def pruneOlderThan (cutoff : String) (tables : Tables) : Except ScraperError (Nat × Tables) :=
  let done := Persistence.pruneOlderThan (sqlite julianday) cutoff true ⟨schemaVersion, true, 0, tables⟩
  done.result.map fun removed => (removed, done.state.content)

end Tables

/-! ### Calls on the database -/

inductive Call where
  | saveResource (lookup insert : Option CallFailure) (url title contentHash : String)
      (sizeBytes : Nat)
  | saveChunk (foreignKeys : Bool) (failure : Option CallFailure) (id resourceUrl : String)
      (chunkIndex : Nat) (content : String) (embedding : Option (List F32))
  | saveNote (failure : Option CallFailure) (path contentHash : String) (mtimeSecs : Int)
  | saveNoteChunk (foreignKeys : Bool) (failure : Option CallFailure) (noteId chunkIndex : Nat)
      (content : String) (embedding : Option (List F32))
  | indexNote (path contentHash : String) (mtimeSecs : Int)
      (chunks : List (String × Option (List F32)))
  | deleteNote (path : String)
  | prune (cutoff : String)
  deriving Repr

/-- A call that fails leaves the tables as they were. -/
def settled {α : Type} (tables : Tables) (read : α → Tables) : Except ScraperError α → Tables
  | .ok done => read done
  | .error _ => tables

/-- One call, at the time `now`. -/
def Tables.step (julianday : String → Option Day) (tables : Tables) : String × Call → Tables
  | (now, .saveResource lookup insert url title contentHash sizeBytes) =>
    settled tables Prod.snd (tables.saveResource now lookup insert url title contentHash sizeBytes)
  | (now, .saveChunk foreignKeys failure id resourceUrl chunkIndex content embedding) =>
    settled tables (fun done => done)
      (tables.saveChunk now foreignKeys failure id resourceUrl chunkIndex content embedding)
  | (now, .saveNote failure path contentHash mtimeSecs) =>
    settled tables Prod.snd (tables.saveNote now failure path contentHash mtimeSecs)
  | (now, .saveNoteChunk foreignKeys failure noteId chunkIndex content embedding) =>
    settled tables (fun done => done)
      (tables.saveNoteChunk now foreignKeys failure noteId chunkIndex content embedding)
  | (now, .indexNote path contentHash mtimeSecs chunks) =>
    tables.indexNoteTransactional now path contentHash mtimeSecs chunks
  | (_, .deleteNote path) => tables.deleteNote path
  | (_, .prune cutoff) => settled tables Prod.snd (tables.pruneOlderThan julianday cutoff)

def Tables.run (julianday : String → Option Day) (tables : Tables) (calls : List (String × Call)) :
    Tables :=
  calls.foldl (Tables.step julianday) tables

end Pruning

/-! ### The calls without their dates -/

namespace Tables

variable (tables : Tables) (now : String)

theorem database_saveResource (lookup insert : Option CallFailure) (url title contentHash : String)
    (sizeBytes : Nat) : (tables.saveResource now lookup insert url title contentHash sizeBytes).map
        (fun (saved, tables) => (saved, tables.database)) =
      tables.database.saveResource lookup insert url title contentHash sizeBytes := by
  unfold saveResource Database.saveResource
  cases tables.database.resourceExistsByHash lookup contentHash with
  | error e => rfl
  | ok found =>
    cases found with
    | some existing => rfl
    | none =>
      cases insert with
      | some cause => rfl
      | none =>
        dsimp only
        split
        · rfl
        · simp [Except.map, database]

theorem database_saveChunk (foreignKeys : Bool) (failure : Option CallFailure)
    (id resourceUrl : String) (chunkIndex : Nat) (content : String) (embedding : Option (List F32)) :
    (tables.saveChunk now foreignKeys failure id resourceUrl chunkIndex content embedding).map
        database =
      tables.database.saveChunk foreignKeys failure id resourceUrl chunkIndex content embedding := by
  unfold saveChunk Database.saveChunk
  cases failure with
  | some cause => rfl
  | none =>
    dsimp only
    split
    · rfl
    · split
      · rfl
      · simp [Except.map, database]

theorem noteRepository_upsertNote (path contentHash : String) (mtimeSecs : Int) :
    (tables.upsertNote now path contentHash mtimeSecs).noteRepository =
      tables.noteRepository.upsertNote path contentHash mtimeSecs := by
  have known : (tables.noteRepository.notes.any fun row => row.path = path) =
      tables.notes.any fun note => note.row.path = path := by
    simp [noteRepository, List.any_map, Function.comp_def]
  unfold upsertNote NoteRepository.upsertNote
  rw [known]
  split
  · simp only [noteRepository, List.map_map]
    congr 1
    apply List.map_congr_left
    intro note _
    simp only [Function.comp_apply]
    split <;> rfl
  · simp [noteRepository]

theorem noteRepository_indexNoteTransactional (path contentHash : String) (mtimeSecs : Int)
    (chunks : List (String × Option (List F32))) :
    (tables.indexNoteTransactional now path contentHash mtimeSecs chunks).noteRepository =
      tables.noteRepository.indexNoteTransactional path contentHash mtimeSecs chunks := by
  unfold indexNoteTransactional NoteRepository.indexNoteTransactional
  rw [← noteRepository_upsertNote tables now]
  cases known : (tables.upsertNote now path contentHash mtimeSecs).noteRepository.noteId path with
  | none => simp only [known]
  | some id =>
    simp only [known]
    simp [noteRepository, Function.comp_def]

theorem noteRepository_deleteNote (path : String) :
    (tables.deleteNote path).noteRepository = tables.noteRepository.deleteNote path := by
  simp [deleteNote, NoteRepository.deleteNote, noteRepository, List.filter_map, Function.comp_def]

end Tables

/-! ### Pruning by age -/

section Pruning

variable {Day : Type} [LT Day] [DecidableLT Day] (julianday : String → Option Day) (cutoff : String)

/-- What age-based retention promises for the tables, once and in a second call after the first. -/
def PrunesByAge (tables : Tables) : Prop :=
  ∃ removed pruned, tables.pruneOlderThan julianday cutoff = .ok (removed, pruned) ∧
    ByAge (fun resource => resource.row.url) (fun chunk => chunk.row.resourceUrl)
      (Dated.before julianday cutoff) (Dated.before julianday cutoff)
      tables.resources pruned.resources tables.chunks pruned.chunks ∧
    ByAge (fun note => note.row.id) (fun chunk => chunk.row.noteId)
      (Dated.before julianday cutoff) (Dated.before julianday cutoff)
      tables.notes pruned.notes tables.noteChunks pruned.noteChunks ∧
    removed + pruned.rowCount = tables.rowCount ∧
    pruned.pruneOlderThan julianday cutoff = .ok (0, pruned)

/-- Every chunk and every note chunk has its parent row, and is before the cutoff exactly where the
parent is. -/
def ChildrenShareAge (tables : Tables) : Prop :=
  AgesAgree (fun resource => resource.row.url) (fun chunk => chunk.row.resourceUrl)
      (Dated.before julianday cutoff) (Dated.before julianday cutoff)
      tables.resources tables.chunks ∧
    AgesAgree (fun note => note.row.id) (fun chunk => chunk.row.noteId)
      (Dated.before julianday cutoff) (Dated.before julianday cutoff) tables.notes tables.noteChunks

namespace Tables

variable (tables : Tables)

/-- The tables after a call. -/
def pruned : Tables :=
  { tables with
    resources := tables.resources.filter fun resource => !resource.before julianday cutoff
    chunks := childrenOfFresh (fun resource => resource.row.url) (fun chunk => chunk.row.resourceUrl)
      (Dated.before julianday cutoff) tables.resources tables.chunks
    notes := tables.notes.filter fun note => !note.before julianday cutoff
    noteChunks := childrenOfFresh (fun note => note.row.id) (fun chunk => chunk.row.noteId)
      (Dated.before julianday cutoff) tables.notes tables.noteChunks }

theorem length_pruned_le :
    (tables.pruned julianday cutoff).resources.length ≤ tables.resources.length ∧
      (tables.pruned julianday cutoff).chunks.length ≤ tables.chunks.length ∧
      (tables.pruned julianday cutoff).notes.length ≤ tables.notes.length ∧
      (tables.pruned julianday cutoff).noteChunks.length ≤ tables.noteChunks.length :=
  ⟨List.length_filter_le _ _, List.length_filter_le _ _, List.length_filter_le _ _,
    List.length_filter_le _ _⟩

/-- The second statement is not refused: the first has taken every chunk of a row that goes. -/
theorem deleteOlder_resources :
    deleteOlder julianday .resources cutoff
        { tables with chunks := (tables.pruned julianday cutoff).chunks } =
      .ok ({ tables with
          resources := (tables.pruned julianday cutoff).resources
          chunks := (tables.pruned julianday cutoff).chunks },
        tables.resources.length - (tables.pruned julianday cutoff).resources.length) := by
  refine if_neg ?_
  simp only [pruned, Bool.not_eq_true, List.any_eq_false, Bool.and_eq_true, decide_eq_true_eq, not_and]
  intro chunk kept resource stored old same
  have fresh := (mem_childrenOfFresh.mp kept).2 resource stored same
  rw [old] at fresh
  cases fresh

/-- What `ON DELETE CASCADE` would take is gone before the notes go. -/
theorem deleteOlder_notes :
    deleteOlder julianday .notes cutoff
        { tables.pruned julianday cutoff with notes := tables.notes } =
      .ok (tables.pruned julianday cutoff,
        tables.notes.length - (tables.pruned julianday cutoff).notes.length) := by
  simp [deleteOlder, pruned, childrenOfFresh, List.filter_filter]

theorem pruneOlderThan_eq : tables.pruneOlderThan julianday cutoff =
    .ok (tables.rowCount - (tables.pruned julianday cutoff).rowCount,
      tables.pruned julianday cutoff) := by
  have resources := tables.deleteOlder_resources julianday cutoff
  have notes := tables.deleteOlder_notes julianday cutoff
  have lengths := tables.length_pruned_le julianday cutoff
  have delete {table : Pruned} {before after : Tables} {n : Nat}
      (done : deleteOlder julianday table cutoff before = .ok (after, n)) :
      exec (sqlite julianday) (.deleteOlder table cutoff) ⟨schemaVersion, true, 0, before⟩ =
        .ok (⟨schemaVersion, true, 0, after⟩, n) := by
    simp [exec, sqlite, done, Except.map]
  have chunks : deleteOlder julianday .chunks cutoff tables =
      .ok ({ tables with chunks := (tables.pruned julianday cutoff).chunks },
        tables.chunks.length - (tables.pruned julianday cutoff).chunks.length) := rfl
  have noteChunks : deleteOlder julianday .noteChunks cutoff
      { tables with
        resources := (tables.pruned julianday cutoff).resources
        chunks := (tables.pruned julianday cutoff).chunks } =
      .ok ({ tables.pruned julianday cutoff with notes := tables.notes },
        tables.noteChunks.length - (tables.pruned julianday cutoff).noteChunks.length) := rfl
  have vacuum : exec (sqlite julianday) .vacuum
      ⟨schemaVersion, true, 0, tables.pruned julianday cutoff⟩ =
        .ok (⟨schemaVersion, true, 1, tables.pruned julianday cutoff⟩, 0) := rfl
  have keys : exec (sqlite julianday) .foreignKeysOn ⟨schemaVersion, true, 0, tables⟩ =
      .ok (⟨schemaVersion, true, 0, tables⟩, 0) := rfl
  have through := GoesThrough.cons keys (.cons (delete chunks) (.cons (delete resources)
    (.cons (delete noteChunks) (.cons (delete notes) (.cons vacuum (.nil _))))))
  obtain ⟨state, result⟩ := through.run_eq
  unfold pruneOlderThan Persistence.pruneOlderThan execute pruneStatements
  simp only [get, sqlite, if_true, Outcome.andThen, Outcome.mapError] at state result ⊢
  rw [state, result]
  refine congrArg Except.ok (Prod.ext ?_ rfl)
  unfold rowCount
  dsimp only
  omega

theorem pruned_pruned :
    (tables.pruned julianday cutoff).pruned julianday cutoff = tables.pruned julianday cutoff := by
  simp [pruned, childrenOfFresh_fresh]

/-! ### What every call keeps -/

variable {tables julianday cutoff}

theorem WellFormed.empty : Tables.empty.WellFormed := ⟨List.nodup_nil, List.nodup_nil, nofun⟩

theorem WellFormed.pruned (formed : tables.WellFormed) :
    (tables.pruned julianday cutoff).WellFormed where
  resourceKeys := formed.resourceKeys.sublist (List.filter_sublist.map _)
  noteKeys := formed.noteKeys.sublist (List.filter_sublist.map _)
  noteIds := fun note stored => formed.noteIds note (List.mem_of_mem_filter stored)

theorem WellFormed.deleteNote (formed : tables.WellFormed) (path : String) :
    (tables.deleteNote path).WellFormed where
  resourceKeys := formed.resourceKeys
  noteKeys := formed.noteKeys.sublist (List.filter_sublist.map _)
  noteIds := fun note stored => formed.noteIds note (List.mem_of_mem_filter stored)

theorem WellFormed.saveResource {now : String} {lookup insert : Option CallFailure}
    {url title contentHash : String} {sizeBytes : Nat} (formed : tables.WellFormed) :
    (settled tables Prod.snd
      (tables.saveResource now lookup insert url title contentHash sizeBytes)).WellFormed := by
  unfold Tables.saveResource
  cases tables.database.resourceExistsByHash lookup contentHash with
  | error e => exact formed
  | ok found =>
    cases found with
    | some existing => exact formed
    | none =>
      cases insert with
      | some cause => exact formed
      | none =>
        dsimp only
        split
        next => exact formed
        next fresh =>
          refine ⟨?_, formed.noteKeys, formed.noteIds⟩
          have absent : ∀ resource ∈ tables.resources, resource.row.url ≠ url := by
            simpa [Database.hasResource, database] using fresh
          simp only [settled, List.map_append, List.map_cons, List.map_nil]
          refine formed.resourceKeys.append (List.nodup_singleton _) ?_
          simpa using absent

theorem WellFormed.upsertNote {now path contentHash : String} {mtimeSecs : Int}
    (formed : tables.WellFormed) :
    (tables.upsertNote now path contentHash mtimeSecs).WellFormed := by
  unfold Tables.upsertNote
  split
  · -- neither key of a note is among the columns the conflict clause sets
    have keys : ∀ note : Dated NoteRow,
        (if note.row.path = path then
          { note with row := { note.row with contentHash := contentHash, mtimeSecs := mtimeSecs } }
        else note).row.id = note.row.id := by
      intro note
      split <;> rfl
    refine ⟨formed.resourceKeys, ?_, ?_⟩
    · simpa [List.map_map, Function.comp_def, keys] using formed.noteKeys
    · simpa [keys] using formed.noteIds
  · refine ⟨formed.resourceKeys, ?_, ?_⟩
    · simp only [List.map_append, List.map_cons, List.map_nil]
      refine formed.noteKeys.append (List.nodup_singleton _) ?_
      simp only [List.disjoint_singleton, List.mem_map, not_exists, not_and]
      intro note stored same
      have known := formed.noteIds note stored
      omega
    · intro note stored
      rcases List.mem_append.mp stored with old | new
      · exact Nat.le_succ_of_le (formed.noteIds note old)
      · obtain rfl := List.mem_singleton.mp new
        exact Nat.le_refl _

/-- The chunk tables hold no key of the two others. -/
theorem WellFormed.of_parents {tables' : Tables} (formed : tables.WellFormed)
    (resources : tables'.resources = tables.resources) (notes : tables'.notes = tables.notes)
    (lastNoteId : tables'.lastNoteId = tables.lastNoteId) : tables'.WellFormed where
  resourceKeys := resources ▸ formed.resourceKeys
  noteKeys := notes ▸ formed.noteKeys
  noteIds := notes ▸ lastNoteId ▸ formed.noteIds

theorem WellFormed.step (formed : tables.WellFormed) (call : String × Call) :
    (tables.step julianday call).WellFormed := by
  obtain ⟨now, call⟩ := call
  cases call with
  | saveResource => exact formed.saveResource
  | saveChunk foreignKeys failure id resourceUrl chunkIndex content embedding =>
    simp only [Tables.step, saveChunk]
    split
    · exact formed
    · split_ifs
      · exact formed
      · exact formed
      · exact formed.of_parents rfl rfl rfl
  | saveNote failure path contentHash mtimeSecs =>
    simp only [Tables.step, saveNote]
    split
    · exact formed
    · split
      · exact formed
      · exact formed.upsertNote
  | saveNoteChunk foreignKeys failure noteId chunkIndex content embedding =>
    simp only [Tables.step, saveNoteChunk]
    split
    · exact formed
    · split_ifs
      · exact formed
      · exact formed.of_parents rfl rfl rfl
  | indexNote path contentHash mtimeSecs chunks =>
    simp only [Tables.step, indexNoteTransactional]
    split
    · exact formed
    · exact formed.upsertNote.of_parents rfl rfl rfl
  | deleteNote path => exact formed.deleteNote path
  | prune cutoff =>
    simp only [Tables.step, pruneOlderThan_eq, settled]
    exact formed.pruned

theorem WellFormed.run (formed : tables.WellFormed) (calls : List (String × Call)) :
    (tables.run julianday calls).WellFormed := by
  induction calls generalizing tables with
  | nil => exact formed
  | cons call rest ih => exact ih (formed.step call)

end Tables

/-! ### When pruning goes by the age of the row -/

variable {julianday cutoff} {tables : Tables}

instance : Decidable (ChildrenShareAge julianday cutoff tables) :=
  inferInstanceAs (Decidable (_ ∧ _))

theorem prunesByAge_iff (formed : tables.WellFormed) :
    PrunesByAge julianday cutoff tables ↔ ChildrenShareAge julianday cutoff tables := by
  constructor
  · rintro ⟨removed, pruned, ran, resources, notes, -, -⟩
    rw [Tables.pruneOlderThan_eq] at ran
    cases ran
    exact ⟨(byAge_iff formed.resourceKeys).mp resources, (byAge_iff formed.noteKeys).mp notes⟩
  · rintro ⟨resources, notes⟩
    have fewer : (tables.pruned julianday cutoff).rowCount ≤ tables.rowCount := by
      have lengths := tables.length_pruned_le julianday cutoff
      unfold Tables.rowCount
      omega
    refine ⟨_, _, tables.pruneOlderThan_eq julianday cutoff, (byAge_iff formed.resourceKeys).mpr resources,
      (byAge_iff formed.noteKeys).mpr notes, Nat.sub_add_cancel fewer, ?_⟩
    rw [Tables.pruneOlderThan_eq, Tables.pruned_pruned, Nat.sub_self]

/-- In every state that calls at any times reach, from tables whose rows have any dates, pruning goes
by the age of each row exactly where the chunks are of the age of their parents. -/
theorem run_prunesByAge_iff {start : Tables} (formed : start.WellFormed)
    (calls : List (String × Call)) (cutoff : String) :
    PrunesByAge julianday cutoff (start.run julianday calls) ↔
      ChildrenShareAge julianday cutoff (start.run julianday calls) :=
  prunesByAge_iff (formed.run calls)

end Pruning

/-! ### A note indexed in 2020, and a cutoff at the start of 2025 -/

namespace AgedNote

/-- Julian days by halves, for the dates below. -/
def julianday (text : String) : Option Nat :=
  [("2020-01-01 00:00:00", 4917699), ("2025-01-01T00:00:00+00:00", 4921353),
    ("2026-01-01 00:00:00", 4922083)].lookup text

def cutoff : String := "2025-01-01T00:00:00+00:00"

def indexed : String × Call :=
  ("2020-01-01 00:00:00", .indexNote "plan.md"
    "7743ce348d9284d677a185f33295b92266cc435a5b5f775029b300066d26693a" 1577836800 [("draft", none)])

/-- The note is edited, and indexed again. -/
def reindexed : String × Call :=
  ("2026-01-01 00:00:00", .indexNote "plan.md"
    "2443630b4620165c8b173e7265e17526fe2787ae594364dd6d839ad58f2fc007" 1767225600 [("final", none)])

/-- A page without a date. -/
def undated : Tables :=
  ⟨[⟨⟨"https://a.test/", "A",
      "982d9e3eb996f559e633f4d194def3761d909f5a3b647d1a851fead67c32c9d1", 4, "active"⟩, none⟩],
    [⟨⟨"c0", "https://a.test/", 0, "text", none⟩, none⟩], [], [], 0⟩

theorem undated_wellFormed : undated.WellFormed := ⟨by decide, by decide, by decide⟩

/-- The note and its one chunk go, the page stays. -/
theorem indexed_note_pruned :
    ChildrenShareAge julianday cutoff (undated.run julianday [indexed]) ∧
      PrunesByAge julianday cutoff (undated.run julianday [indexed]) :=
  ⟨by decide, (run_prunesByAge_iff undated_wellFormed [indexed] cutoff).mpr (by decide)⟩

/-- The chunk of 2026 goes with the note, whose row is of 2020. -/
theorem reindexed_note_lost :
    ¬ PrunesByAge julianday cutoff (Tables.empty.run julianday [indexed, reindexed]) := by
  rw [prunesByAge_iff (Tables.WellFormed.empty.run [indexed, reindexed])]
  decide

end AgedNote

end Webfang.Persistence
