import Webfang.Library.KeyedList
import Webfang.Vault.NoteRepository

/-!
# Whole runs of vault synchronisation

Seen path by path, the index holds a digest and a list of chunks. Indexing a path puts the new
digest there and adds the new chunks behind the old ones, deletion removes both. So the index
mirrors the vault after each run exactly when no note that had chunks was edited.
-/
namespace Webfang.Vault

open Library

/-! ### Embedding blobs -/

theorem fromLeBytes_toLeBytes (f : F32) :
    (f.extractLsb' 24 8 ++ f.extractLsb' 16 8 ++ f.extractLsb' 8 8 ++ f.extractLsb' 0 8 : F32) = f := by
  apply BitVec.eq_of_getLsbD_eq
  intro i bound
  simp only [BitVec.getLsbD_append, BitVec.getLsbD_extractLsb']
  split
  · simp [*]
  · split
    · simp_all
    · grind

theorem decodeChunks_f32SliceToBytes (v : List F32) : decodeChunks (f32SliceToBytes v) = v := by
  induction v with
  | nil => rfl
  | cons f rest ih =>
    simp only [f32SliceToBytes, List.flatMap_cons, toLeBytes, List.cons_append, List.nil_append,
      decodeChunks] at ih ⊢
    rw [ih, fromLeBytes_toLeBytes]

theorem bytesToF32Vec_f32SliceToBytes (v : List F32) :
    bytesToF32Vec (f32SliceToBytes v) = some v := by
  have length : (f32SliceToBytes v).length = 4 * v.length := by
    induction v with
    | nil => rfl
    | cons f rest ih =>
      simp only [f32SliceToBytes, List.flatMap_cons, List.length_append, List.length_cons, toLeBytes,
        List.length_nil] at ih ⊢
      omega
  simp [bytesToF32Vec, length, decodeChunks_f32SliceToBytes]

/-! ### The index, path by path -/

namespace NoteRepository

/-- Row ids and paths are distinct, ids of chunks were given out, and every chunk has an
embedding. -/
structure WellFormed (db : NoteRepository) : Prop where
  paths : (db.notes.map NoteRow.path).Nodup
  ids : (db.notes.map NoteRow.id).Nodup
  issued : ∀ row ∈ db.notes, row.id ≤ db.lastNoteId
  chunked : ∀ chunk ∈ db.noteChunks, chunk.noteId ≤ db.lastNoteId
  embedded : ∀ chunk ∈ db.noteChunks, ∃ v, chunk.embeddingVector = some (f32SliceToBytes v)

def chunksOf (db : NoteRepository) (id : Nat) : List (String × Nat) :=
  (db.noteChunks.filter fun chunk => chunk.noteId = id).map fun chunk =>
    (chunk.content, chunk.chunkIndex)

/-- Digest and chunks of a path. -/
def entry (db : NoteRepository) (path : String) : Option (String × List (String × Nat)) :=
  (db.notes.find? fun row => row.path = path).map fun row => (row.contentHash, db.chunksOf row.id)

def heldChunks (held : Option (String × List (String × Nat))) : List (String × Nat) :=
  (held.map Prod.snd).getD []

variable {db : NoteRepository}

theorem wellFormed_empty : empty.WellFormed :=
  ⟨.nil, .nil, by simp [empty], by simp [empty], by simp [empty]⟩

theorem WellFormed.find? (wellFormed : db.WellFormed) {path : String} {row : NoteRow} :
    db.notes.find? (fun row => row.path = path) = some row ↔ row ∈ db.notes ∧ row.path = path :=
  KeyedList.find?_eq_some_iff wellFormed.paths

theorem WellFormed.path_unique (wellFormed : db.WellFormed) {a b : NoteRow} (first : a ∈ db.notes)
    (second : b ∈ db.notes) (same : a.id = b.id) : a = b :=
  List.inj_on_of_nodup_map wellFormed.ids first second same

/-! #### Indexing -/

/-- What an upsert leaves: the row of the path has the digest and its old chunks, if any, and
every other row stays. -/
structure Upserted (db after : NoteRepository) (path contentHash : String) : Prop where
  wellFormed : after.WellFormed
  noteChunks : after.noteChunks = db.noteChunks
  others : ∀ other, other ≠ path → after.notes.find? (fun row => row.path = other) =
    db.notes.find? fun row => row.path = other
  own : ∃ row, after.notes.find? (fun row => row.path = path) = some row ∧
    row.contentHash = contentHash ∧ heldChunks (db.entry path) = db.chunksOf row.id ∧
    ∀ other ∈ db.notes, other.path ≠ path → other.id ≠ row.id

theorem upserted_known (wellFormed : db.WellFormed) {path : String} {held : NoteRow}
    (listed : held ∈ db.notes) (at_path : held.path = path) (contentHash : String)
    (mtimeSecs : Int) :
    db.Upserted (db.upsertNote path contentHash mtimeSecs) path contentHash := by
  let update (row : NoteRow) : NoteRow :=
    if row.path = path then { row with contentHash := contentHash, mtimeSecs := mtimeSecs } else row
  have known : db.notes.any (fun row => row.path = path) = true :=
    List.any_eq_true.mpr ⟨held, listed, by simpa using at_path⟩
  have updated : db.upsertNote path contentHash mtimeSecs =
      { db with notes := db.notes.map update } := by
    simp only [upsertNote, known, if_true]
    rfl
  -- the update changes neither path nor id, so the row stays where it is looked up
  have same_path : ∀ row, (update row).path = row.path := by
    intro row
    simp only [update]
    split <;> rfl
  have same_id : ∀ row, (update row).id = row.id := by
    intro row
    simp only [update]
    split <;> rfl
  have paths : (db.notes.map update).map NoteRow.path = db.notes.map NoteRow.path := by
    simp [same_path]
  have ids : (db.notes.map update).map NoteRow.id = db.notes.map NoteRow.id := by
    simp [same_id]
  rw [updated]
  have wellFormed' : ({ db with notes := db.notes.map update } : NoteRepository).WellFormed := by
    refine ⟨paths ▸ wellFormed.paths, ids ▸ wellFormed.ids, ?_, wellFormed.chunked,
      wellFormed.embedded⟩
    intro row mapped
    obtain ⟨old, inside, rfl⟩ := List.mem_map.mp mapped
    rw [same_id]
    exact wellFormed.issued old inside
  refine ⟨wellFormed', rfl, ?_, update held, ?_, ?_, ?_, ?_⟩
  · intro other distinct
    simp only [List.find?_map, Function.comp_def, same_path]
    cases found : db.notes.find? fun row => row.path = other with
    | none => rfl
    | some row =>
      have at_other := (wellFormed.find?.mp found).2
      simp [update, at_other, distinct]
  · apply wellFormed'.find?.mpr
    exact ⟨List.mem_map_of_mem listed, (same_path held).trans at_path⟩
  · simp [update, at_path]
  · have found := wellFormed.find?.mpr ⟨listed, at_path⟩
    simp [entry, heldChunks, found, same_id]
  · intro other inside apart same
    rw [same_id] at same
    rw [wellFormed.path_unique inside listed same] at apart
    exact apart at_path

theorem upserted_new (wellFormed : db.WellFormed) {path : String}
    (absent : ∀ row ∈ db.notes, row.path ≠ path) (contentHash : String) (mtimeSecs : Int) :
    db.Upserted (db.upsertNote path contentHash mtimeSecs) path contentHash := by
  have missing : db.notes.find? (fun row => row.path = path) = none := by
    simpa using absent
  have inserted : db.upsertNote path contentHash mtimeSecs = { db with
      notes := db.notes ++ [⟨db.lastNoteId + 1, path, contentHash, mtimeSecs⟩]
      lastNoteId := db.lastNoteId + 1 } := by
    have unknown : db.notes.any (fun row => row.path = path) = false := by simpa using absent
    simp [upsertNote, unknown]
  rw [inserted]
  -- the new id is above every id that was given out
  refine ⟨⟨?_, ?_, ?_, ?_, wellFormed.embedded⟩, rfl, ?_,
    ⟨db.lastNoteId + 1, path, contentHash, mtimeSecs⟩, ?_, rfl, ?_, ?_⟩
  · rw [List.map_append]
    apply List.Nodup.append wellFormed.paths (List.nodup_singleton _)
    simpa using fun row listed => absent row listed
  · rw [List.map_append]
    apply List.Nodup.append wellFormed.ids (List.nodup_singleton _)
    simp only [List.disjoint_singleton, List.mem_map, not_exists, not_and]
    intro row listed same
    have below := wellFormed.issued row listed
    omega
  · intro row listed
    rcases List.mem_append.mp listed with old | new
    · have below := wellFormed.issued row old
      simp only
      omega
    · obtain rfl := List.mem_singleton.mp new
      exact Nat.le_refl _
  · intro chunk listed
    have below := wellFormed.chunked chunk listed
    simp only
    omega
  · intro other distinct
    simp [List.find?_append, Ne.symm distinct]
  · simp [List.find?_append, missing]
  · -- no chunk row has an id that was never given out
    have none : (db.noteChunks.filter fun chunk => chunk.noteId = db.lastNoteId + 1) = [] := by
      apply List.filter_eq_nil_iff.mpr
      intro chunk listed
      have below := wellFormed.chunked chunk listed
      simp only [decide_eq_true_eq]
      omega
    simp [entry, heldChunks, missing, chunksOf, none]
  · intro other inside _ same
    have below := wellFormed.issued other inside
    simp only at same
    omega

theorem upserted (wellFormed : db.WellFormed) (path contentHash : String) (mtimeSecs : Int) :
    db.Upserted (db.upsertNote path contentHash mtimeSecs) path contentHash := by
  by_cases known : ∃ held ∈ db.notes, held.path = path
  · obtain ⟨held, listed, at_path⟩ := known
    exact upserted_known wellFormed listed at_path contentHash mtimeSecs
  · apply upserted_new wellFormed _ contentHash mtimeSecs
    intro row listed at_path
    exact known ⟨row, listed, at_path⟩

theorem indexNoteTransactional_spec (wellFormed : db.WellFormed) (path contentHash : String)
    (mtimeSecs : Int) {chunks : List (String × Option (List F32))}
    (embedded : ∀ chunk ∈ chunks, chunk.2.isSome = true) :
    let after := db.indexNoteTransactional path contentHash mtimeSecs chunks
    after.WellFormed ∧ ∀ other, after.entry other =
      if other = path then
        some (contentHash, heldChunks (db.entry path) ++ (chunks.map Prod.fst).zipIdx)
      else db.entry other := by
  intro after
  have upserted := upserted wellFormed path contentHash mtimeSecs
  obtain ⟨row, found, digest, held, apart⟩ := upserted.own
  have indexed : after = { db.upsertNote path contentHash mtimeSecs with
      noteChunks := db.noteChunks ++ chunks.zipIdx.map fun chunk =>
        ⟨row.id, chunk.2, chunk.1.1, chunk.1.2.map f32SliceToBytes⟩ } := by
    simp only [after, indexNoteTransactional, noteId, found, Option.map_some, upserted.noteChunks]
  -- the new rows go behind the old ones of the same id: none is removed
  have chunksOf_after : ∀ id, after.chunksOf id =
      db.chunksOf id ++ if id = row.id then (chunks.map Prod.fst).zipIdx else [] := by
    intro id
    rw [indexed]
    simp only [chunksOf, List.filter_append, List.map_append, List.filter_map, List.map_map]
    congr 1
    by_cases own : id = row.id
    · subst own
      simp [Function.comp_def, List.zipIdx_map]
    · simp [Function.comp_def, own, Ne.symm own]
  have issued : row.id ≤ (db.upsertNote path contentHash mtimeSecs).lastNoteId :=
    upserted.wellFormed.issued row (upserted.wellFormed.find?.mp found).1
  constructor
  · rw [indexed]
    refine ⟨upserted.wellFormed.paths, upserted.wellFormed.ids, upserted.wellFormed.issued, ?_, ?_⟩
    · intro chunk listed
      rcases List.mem_append.mp listed with old | new
      · exact upserted.wellFormed.chunked chunk (upserted.noteChunks ▸ old)
      · obtain ⟨_, _, rfl⟩ := List.mem_map.mp new
        exact issued
    · intro chunk listed
      rcases List.mem_append.mp listed with old | new
      · exact wellFormed.embedded chunk old
      · obtain ⟨⟨⟨text, embedding⟩, i⟩, inside, rfl⟩ := List.mem_map.mp new
        have given := embedded _ (List.fst_mem_of_mem_zipIdx inside)
        obtain ⟨v, rfl⟩ := Option.isSome_iff_exists.mp given
        exact ⟨v, rfl⟩
  · intro other
    have notes : after.notes = (db.upsertNote path contentHash mtimeSecs).notes := by rw [indexed]
    by_cases own : other = path
    · subst own
      simp only [entry, notes, found, Option.map_some, chunksOf_after, if_true, digest] at held ⊢
      rw [held]
    · rw [if_neg own]
      simp only [entry, notes, upserted.others other own]
      cases known : db.notes.find? fun row => row.path = other with
      | none => rfl
      | some earlier =>
        obtain ⟨listed, at_other⟩ := wellFormed.find?.mp known
        -- the row of another path has another id
        have distinct := apart earlier listed (at_other ▸ own)
        simp [chunksOf_after, distinct]

theorem deleteNote_spec (wellFormed : db.WellFormed) (path : String) :
    (db.deleteNote path).WellFormed ∧ ∀ other, (db.deleteNote path).entry other =
      if other = path then none else db.entry other := by
  have kept : ∀ row ∈ db.notes, row.path ≠ path →
      (db.deleteNote path).chunksOf row.id = db.chunksOf row.id := by
    intro row listed apart
    simp only [chunksOf, deleteNote, List.filter_filter]
    congr 1
    apply List.filter_congr
    intro chunk _
    -- the subquery finds no row of the deleted path with this id
    by_cases own : chunk.noteId = row.id
    · have spared : (db.notes.any fun gone => gone.path = path && gone.id = chunk.noteId) = false := by
        apply List.any_eq_false.mpr
        intro gone inside deleted
        simp only [Bool.and_eq_true, decide_eq_true_eq] at deleted
        have same := wellFormed.path_unique inside listed (deleted.2.trans own)
        exact apart (same ▸ deleted.1)
      simp [own ▸ spared, own]
    · simp [own]
  constructor
  · refine ⟨?_, ?_, ?_, ?_, ?_⟩
    · exact wellFormed.paths.sublist (List.filter_sublist.map _)
    · exact wellFormed.ids.sublist (List.filter_sublist.map _)
    · exact fun row listed => wellFormed.issued row (List.mem_of_mem_filter listed)
    · exact fun chunk listed => wellFormed.chunked chunk (List.mem_of_mem_filter listed)
    · exact fun chunk listed => wellFormed.embedded chunk (List.mem_of_mem_filter listed)
  · intro other
    by_cases own : other = path
    · subst own
      simp [entry, deleteNote, List.find?_filter]
    · rw [if_neg own]
      have same : (db.deleteNote path).notes.find? (fun row => row.path = other) =
          db.notes.find? fun row => row.path = other := by
        simp only [deleteNote, List.find?_filter]
        congr 1
        funext row
        by_cases at_other : row.path = other
        · simp [at_other, own]
        · simp [at_other]
      simp only [entry, same]
      cases known : db.notes.find? fun row => row.path = other with
      | none => rfl
      | some row =>
        obtain ⟨listed, at_other⟩ := wellFormed.find?.mp known
        simp [kept row listed (at_other ▸ own)]

end NoteRepository

/-! ### One synchronisation, path by path -/

namespace VaultPorts

open NoteRepository

variable {ports : VaultPorts} {embedding : EmbeddingPort} {db : NoteRepository}

/-- The chunks of a text with their indices. -/
def chunks (ports : VaultPorts) (content : String) : List (String × Nat) :=
  (ports.chunkText content).zipIdx

theorem indexNote_spec (ports : VaultPorts) (embedding : EmbeddingPort)
    (wellFormed : db.WellFormed) (path content contentHash : String) (mtimeSecs : Int) :
    let after := ports.indexNote embedding db path content contentHash mtimeSecs
    after.WellFormed ∧ ∀ other, after.entry other =
      if other = path then
        some (contentHash, heldChunks (db.entry path) ++ ports.chunks content)
      else db.entry other := by
  have given : ∀ texts : List String,
      (if texts.isEmpty then [] else embedding.embedBatch texts).length = texts.length := by
    intro texts
    cases texts with
    | nil => rfl
    | cons text rest => exact embedding.onePerChunk (text :: rest)
  have texts := List.map_fst_zip (Nat.le_of_eq (given (ports.chunkText content)).symm)
  have embedded : ∀ chunk ∈ ((ports.chunkText content).zip (if (ports.chunkText content).isEmpty then []
      else embedding.embedBatch (ports.chunkText content))).map fun pair => (pair.1, some pair.2), chunk.2.isSome = true := by
    intro chunk listed
    obtain ⟨_, _, rfl⟩ := List.mem_map.mp listed
    rfl
  have indexed := indexNoteTransactional_spec wellFormed path contentHash mtimeSecs embedded
  simp only [List.map_map, Function.comp_def] at indexed
  rw [texts] at indexed
  exact indexed

/-- Whether the loop indexes a note of this digest. -/
def Outdated (held : Option (String × List (String × Nat))) (contentHash : String) : Prop :=
  held.map Prod.fst ≠ some contentHash

instance (held : Option (String × List (String × Nat))) (contentHash : String) :
    Decidable (Outdated held contentHash) := inferInstanceAs (Decidable (_ ≠ _))

theorem listIndexedNotes_find? (db : NoteRepository) (path : String) :
    (db.listIndexedNotes.find? fun known => known.path = path).map IndexedNoteMeta.contentHash =
      (db.entry path).map Prod.fst := by
  simp only [listIndexedNotes, List.find?_map, Function.comp_def, entry, Option.map_map]

def synced (ports : VaultPorts) (vault : VaultFiles) (path : String)
    (held : Option (String × List (String × Nat))) : Option (String × List (String × Nat)) :=
  match vault.files.find? fun file => file.path = path with
  | none => none
  | some file =>
    if Outdated held (ports.sha256Hex file.content) then
      some (ports.sha256Hex file.content, heldChunks held ++ ports.chunks file.content)
    else held

theorem syncNote_spec {indexed : List IndexedNoteMeta} {digest : String → Option String}
    (known : ∀ path, (indexed.find? fun row => row.path = path).map IndexedNoteMeta.contentHash =
      digest path) (state : NoteRepository × SyncSummary) (note : VaultNote)
    (wellFormed : state.1.WellFormed) : (ports.syncNote embedding indexed state note).1.WellFormed ∧
      ∀ path, (ports.syncNote embedding indexed state note).1.entry path =
        if path = note.path then
          if digest note.path ≠ some note.contentHash then
            some (note.contentHash,
              heldChunks (state.1.entry path) ++ ports.chunks note.content)
          else state.1.entry path
        else state.1.entry path := by
  have digests := known note.path
  have spec := indexNote_spec ports embedding wellFormed note.path
    note.content note.contentHash note.mtimeSecs
  have indexing : ∀ path,
      (ports.indexNote embedding state.1 note.path note.content note.contentHash
        note.mtimeSecs).entry path =
        if path = note.path then
          some (note.contentHash, heldChunks (state.1.entry path) ++ ports.chunks note.content)
        else state.1.entry path := by
    intro path
    rw [spec.2]
    by_cases own : path = note.path
    · simp [own]
    · simp [own]
  simp only [syncNote]
  -- the listing was read before the loop, so it speaks of the digest of that time
  cases found : indexed.find? fun row => row.path = note.path with
  | none =>
    rw [found] at digests
    simp only [← digests]
    exact ⟨spec.1, by simpa using indexing⟩
  | some row =>
    rw [found] at digests
    simp only [← digests]
    by_cases changed : row.contentHash = note.contentHash
    · simpa [changed] using wellFormed
    · simp only [changed, ne_eq, not_false_eq_true, if_true, Option.map_some, Option.some.injEq]
      exact ⟨spec.1, indexing⟩

theorem removeStale_spec {vaultPaths : List String} (state : NoteRepository × SyncSummary)
    (known : IndexedNoteMeta) (wellFormed : state.1.WellFormed) :
    (removeStale vaultPaths state known).1.WellFormed ∧
      ∀ path, (removeStale vaultPaths state known).1.entry path =
        if path = known.path then if known.path ∈ vaultPaths then state.1.entry path else none
        else state.1.entry path := by
  by_cases present : known.path ∈ vaultPaths
  · simp only [removeStale, present, if_true, ite_self]
    exact ⟨wellFormed, fun _ => trivial⟩
  · simp only [removeStale, present, if_false]
    exact deleteNote_spec wellFormed known.path

theorem syncVault_spec (ports : VaultPorts) (embedding : EmbeddingPort)
    (wellFormed : db.WellFormed) (vault : VaultFiles) :
    (ports.syncVault embedding db vault).1.WellFormed ∧
      ∀ path, (ports.syncVault embedding db vault).1.entry path =
        ports.synced vault path (db.entry path) := by
  have paths : (ports.readVaultNotes vault).map VaultNote.path = vault.files.map NoteFile.path := by
    simp [readVaultNotes]
  have distinct : ((ports.readVaultNotes vault).map VaultNote.path).Nodup := paths ▸ vault.distinct
  have distinct' : (db.listIndexedNotes.map IndexedNoteMeta.path).Nodup := by
    simpa [listIndexedNotes, Function.comp_def] using wellFormed.paths
  let valid (state : NoteRepository × SyncSummary) : Prop := state.1.WellFormed
  let slot (state : NoteRepository × SyncSummary) (path : String) := state.1.entry path
  obtain ⟨updatedValid, updated⟩ := KeyedList.foldl_slot VaultNote.path valid slot
    (fun note held =>
      if (db.entry note.path).map Prod.fst ≠ some note.contentHash then
        some (note.contentHash, heldChunks held ++ ports.chunks note.content)
      else held)
    (syncNote_spec (listIndexedNotes_find? db)) distinct
    (show valid (db, ⟨0, 0, 0, 0⟩) from wellFormed)
  obtain ⟨finalValid, final⟩ := KeyedList.foldl_slot IndexedNoteMeta.path valid slot
    (fun known held =>
      if known.path ∈ (ports.readVaultNotes vault).map VaultNote.path then held else none)
    removeStale_spec distinct' updatedValid
  refine ⟨finalValid, ?_⟩
  intro path
  have read : ((ports.readVaultNotes vault).find? fun note => note.path = path) =
      (vault.files.find? fun file => file.path = path).map fun file =>
        ⟨file.path, file.content, file.mtimeSecs, ports.sha256Hex file.content⟩ := by
    simp only [readVaultNotes, List.find?_map, Function.comp_def]
  change slot _ path = _
  rw [syncVault, final, updated, read]
  simp only [synced, paths]
  cases found : vault.files.find? fun file => file.path = path with
  | none =>
    -- a path that is not in the vault was indexed before the run, or is absent all along
    have outside := KeyedList.find?_eq_none_iff.mp found
    simp only [Option.map_none]
    cases known : db.listIndexedNotes.find? fun known => known.path = path with
    | none =>
      have digests := listIndexedNotes_find? db path
      rw [known] at digests
      simpa using digests.symm
    | some row =>
      have at_path : row.path = path := by simpa using List.find?_some known
      simp only [at_path]
      rw [if_neg outside]
  | some file =>
    have at_path : file.path = path := by simpa using List.find?_some found
    have inside : path ∈ vault.files.map NoteFile.path :=
      List.mem_map.mpr ⟨file, List.mem_of_find?_eq_some found, at_path⟩
    simp only [Option.map_some, at_path, Outdated]
    cases known : db.listIndexedNotes.find? fun known => known.path = path with
    | none => rfl
    | some row =>
      have at_row : row.path = path := by simpa using List.find?_some known
      simp only [at_row]
      rw [if_pos inside]
      rfl

end VaultPorts

end Webfang.Vault
