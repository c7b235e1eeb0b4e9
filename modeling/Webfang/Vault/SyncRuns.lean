import Webfang.Vault.VaultSync

/-!
# The index after each run

After every run of a sequence the index should hold exactly the notes of the vault with the
chunks of their current text. It does if and only if no run found a note with another digest
than the one stored and with chunk rows stored for it.
-/
namespace Webfang.Vault

open Library NoteRepository

/-- A call of `sync_vault`: the vault it reads and the model it embeds with. -/
structure SyncRun where
  embedding : EmbeddingPort
  vault : VaultFiles

namespace VaultPorts

variable (ports : VaultPorts)

/-- The index holds the notes of the vault under their digests, and what `load_all_vectors`
returns are their chunks. -/
def Synced (db : NoteRepository) (vault : VaultFiles) : Prop :=
  (db.notes.map fun row => (row.path, row.contentHash)).Perm
      (vault.files.map fun file => (file.path, ports.sha256Hex file.content)) ∧
    ∃ vectors, db.loadAllVectors = some vectors ∧
      (vectors.map fun vector => (vector.notePath, vector.content, vector.chunkIndex)).Perm
        (vault.files.flatMap fun file => (ports.chunks file.content).map fun (text, i) =>
          (file.path, text, i))

/-- No note of the vault is stored under another digest together with chunk rows. -/
def EditsUnchunked (db : NoteRepository) (vault : VaultFiles) : Prop :=
  ∀ file ∈ vault.files, ∀ row ∈ db.notes, row.path = file.path →
    row.contentHash ≠ ports.sha256Hex file.content →
      ∀ chunk ∈ db.noteChunks, chunk.noteId ≠ row.id

/-- `holds` of every run of the sequence, given the index it starts from. -/
def EachRun (holds : NoteRepository → SyncRun → Prop) : NoteRepository → List SyncRun → Prop
  | _, [] => True
  | db, run :: rest =>
    holds db run ∧ EachRun holds (ports.syncVault run.embedding db run.vault).1 rest

/-- The texts of all notes ever read. -/
def contents (runs : List SyncRun) : List String :=
  runs.flatMap fun run => run.vault.files.map NoteFile.content

/-! ### One run -/

/-- The index holds, path by path, what the vault does. -/
structure Mirrors (db : NoteRepository) (vault : VaultFiles) : Prop where
  wellFormed : db.WellFormed
  entries : ∀ path, db.entry path = (vault.files.find? fun file => file.path = path).map fun file =>
    (ports.sha256Hex file.content, ports.chunks file.content)

variable {ports} {db : NoteRepository} {vault : VaultFiles}

theorem find?_file {file : NoteFile} (listed : file ∈ vault.files) :
    vault.files.find? (fun other => other.path = file.path) = some file :=
  (KeyedList.find?_eq_some_iff vault.distinct).mpr ⟨listed, rfl⟩

theorem editsUnchunked_iff (wellFormed : db.WellFormed) :
    ports.EditsUnchunked db vault ↔ ∀ file ∈ vault.files,
      Outdated (db.entry file.path) (ports.sha256Hex file.content) →
        heldChunks (db.entry file.path) = [] := by
  apply forall₂_congr
  intro file _
  cases found : db.notes.find? fun row => row.path = file.path with
  | none =>
    have absent := KeyedList.find?_eq_none_iff.mp found
    simp only [entry, found, heldChunks, Option.map_none, Option.getD_none, implies_true, iff_true]
    intro row listed same
    exact absurd (List.mem_map.mpr ⟨row, listed, same⟩) absent
  | some row =>
    obtain ⟨listed, same⟩ := wellFormed.find?.mp found
    have only : ∀ other ∈ db.notes, other.path = file.path → other = row := fun other inside at_path =>
      List.inj_on_of_nodup_map wellFormed.paths inside listed (at_path.trans same.symm)
    simp only [entry, found, heldChunks, Outdated, Option.map_some, Option.getD_some, ne_eq,
      Option.some.injEq, chunksOf, List.map_eq_nil_iff, List.filter_eq_nil_iff, decide_eq_true_eq]
    constructor
    · exact fun unchunked => unchunked row listed same
    · intro unchunked other inside at_path
      rw [only other inside at_path]
      exact unchunked

theorem mapM_decode {α β γ : Type} {decode : α → Option β} {read : β → γ} {shown : α → γ}
    {l : List α} (decodes : ∀ a ∈ l, ∃ b, decode a = some b ∧ read b = shown a) :
    ∃ bs, l.mapM decode = some bs ∧ bs.map read = l.map shown := by
  induction l with
  | nil => exact ⟨[], rfl, rfl⟩
  | cons a rest ih =>
    obtain ⟨b, first, same⟩ := decodes a List.mem_cons_self
    obtain ⟨bs, others, sames⟩ := ih fun a listed => decodes a (List.mem_cons_of_mem _ listed)
    exact ⟨b :: bs, by simp [List.mapM_cons, first, others], by simp [same, sames]⟩

theorem vectorRows_map (wellFormed : db.WellFormed) :
    (db.vectorRows.map fun (path, content, chunkIndex, _) => (path, content, chunkIndex)) =
      db.notes.flatMap fun row => (db.chunksOf row.id).map fun (text, i) => (row.path, text, i) := by
  unfold vectorRows
  rw [List.map_flatMap]
  congr 1
  funext row
  rw [List.map_filterMap, chunksOf, List.map_map, ← List.filterMap_eq_map]
  apply List.filterMap_congr
  intro chunk listed
  obtain ⟨v, embedded⟩ := wellFormed.embedded chunk (List.mem_of_mem_filter listed)
  simp [embedded]

/-- The vectors by path: a note contributes its chunks. -/
theorem loadAllVectors_spec (wellFormed : db.WellFormed) :
    ∃ vectors, db.loadAllVectors = some vectors ∧
      (vectors.map fun vector => (vector.notePath, vector.content, vector.chunkIndex)) =
        (db.notes.map NoteRow.path).flatMap fun path =>
          (heldChunks (db.entry path)).map fun (text, i) => (path, text, i) := by
  have decodes : ∀ row ∈ db.vectorRows, ∃ vector : NoteChunkVector,
      (bytesToF32Vec row.2.2.2).map (fun embedding => ⟨row.1, row.2.1, row.2.2.1, embedding⟩) =
          some vector ∧
        (vector.notePath, vector.content, vector.chunkIndex) = (row.1, row.2.1, row.2.2.1) := by
    intro row listed
    obtain ⟨note, _, joined⟩ := List.mem_flatMap.mp listed
    obtain ⟨chunk, stored, given⟩ := List.mem_filterMap.mp joined
    obtain ⟨v, embedded⟩ := wellFormed.embedded chunk (List.mem_of_mem_filter stored)
    rw [embedded] at given
    cases given
    exact ⟨⟨note.path, chunk.content, chunk.chunkIndex, v⟩,
      by simp [bytesToF32Vec_f32SliceToBytes], rfl⟩
  obtain ⟨vectors, loaded, shown⟩ := mapM_decode decodes
  refine ⟨vectors, loaded, ?_⟩
  rw [shown]
  apply (vectorRows_map wellFormed).trans
  rw [List.flatMap_map]
  apply List.flatMap_congr
  intro row listed
  have found := wellFormed.find?.mpr ⟨listed, rfl⟩
  simp [entry, heldChunks, found]

theorem Mirrors.synced (mirrors : ports.Mirrors db vault) : ports.Synced db vault := by
  have wellFormed := mirrors.wellFormed
  -- both sides list each path once, so they have the same rows
  have rows : (db.notes.map fun row => (row.path, row.contentHash)).Perm
      (vault.files.map fun file => (file.path, ports.sha256Hex file.content)) := by
    rw [List.perm_ext_iff_of_nodup]
    · rintro ⟨path, digest⟩
      have held := mirrors.entries path
      simp only [List.mem_map, Prod.mk.injEq]
      constructor
      · rintro ⟨row, listed, rfl, rfl⟩
        simp only [entry, wellFormed.find?.mpr ⟨listed, rfl⟩, Option.map_some] at held
        obtain ⟨file, found, same⟩ := Option.map_eq_some_iff.mp held.symm
        obtain ⟨listed, at_path⟩ := (KeyedList.find?_eq_some_iff vault.distinct).mp found
        exact ⟨file, listed, at_path, congrArg Prod.fst same⟩
      · rintro ⟨file, listed, rfl, rfl⟩
        rw [find?_file listed] at held
        obtain ⟨row, found, same⟩ := Option.map_eq_some_iff.mp held
        obtain ⟨listed, at_path⟩ := wellFormed.find?.mp found
        exact ⟨row, listed, at_path, congrArg Prod.fst same⟩
    · apply List.Nodup.of_map Prod.fst
      simpa [Function.comp_def] using wellFormed.paths
    · apply List.Nodup.of_map Prod.fst
      simpa [Function.comp_def] using vault.distinct
  refine ⟨rows, ?_⟩
  obtain ⟨vectors, loaded, shown⟩ := loadAllVectors_spec wellFormed
  refine ⟨vectors, loaded, ?_⟩
  -- the chunks follow path by path
  have paths : (db.notes.map NoteRow.path).Perm (vault.files.map NoteFile.path) := by
    simpa [Function.comp_def] using rows.map Prod.fst
  rw [shown]
  apply (paths.flatMap_right _).trans
  rw [List.flatMap_map]
  apply List.Perm.of_eq
  apply List.flatMap_congr
  intro file listed
  rw [mirrors.entries, find?_file listed]
  rfl

theorem path_of_mem (path : String) {chunks : List (String × Nat)} {vector : String × String × Nat}
    (listed : vector ∈ chunks.map fun (text, i) => (path, text, i)) : vector.1 = path := by
  obtain ⟨_, _, rfl⟩ := List.mem_map.mp listed
  rfl

/-- In a synchronised index a note has as many chunk rows as chunks. -/
theorem Synced.length_chunks (wellFormed : db.WellFormed) (synced : ports.Synced db vault)
    {file : NoteFile} (listed : file ∈ vault.files) :
    (heldChunks (db.entry file.path)).length = (ports.chunks file.content).length := by
  obtain ⟨rows, vectors, loaded, same⟩ := synced
  obtain ⟨vectors', loaded', shown⟩ := loadAllVectors_spec wellFormed
  rw [loaded] at loaded'
  cases loaded'
  rw [shown] at same
  have paths : (db.notes.map NoteRow.path).Perm (vault.files.map NoteFile.path) := by
    simpa [Function.comp_def] using rows.map Prod.fst
  have inside : file.path ∈ db.notes.map NoteRow.path :=
    paths.mem_iff.mpr (List.mem_map_of_mem listed)
  -- compare what both lists have of this path
  have ours := (same.filter fun vector => vector.1 = file.path).length_eq
  rw [KeyedList.filter_flatMap Prod.fst (fun k _ => path_of_mem k) wellFormed.paths,
    if_pos inside] at ours
  have theirs : (vault.files.flatMap fun file => (ports.chunks file.content).map fun (text, i) =>
      (file.path, text, i)) =
      (vault.files.map NoteFile.path).flatMap fun path =>
        (heldChunks ((vault.files.find? fun file => file.path = path).map fun file =>
          (ports.sha256Hex file.content, ports.chunks file.content))).map fun (text, i) =>
            (path, text, i) := by
    rw [List.flatMap_map]
    apply List.flatMap_congr
    intro file listed
    rw [find?_file listed]
    rfl
  rw [theirs, KeyedList.filter_flatMap Prod.fst (fun k _ => path_of_mem k) vault.distinct,
    if_pos (List.mem_map_of_mem listed), find?_file listed] at ours
  simpa [heldChunks] using ours

/-- No two of these texts have the same digest. -/
def NoCollision (ports : VaultPorts) (texts : List String) : Prop :=
  ∀ a ∈ texts, ∀ b ∈ texts, ports.sha256Hex a = ports.sha256Hex b → a = b

instance (ports : VaultPorts) (texts : List String) : Decidable (ports.NoCollision texts) :=
  inferInstanceAs (Decidable (∀ a ∈ texts, ∀ b ∈ texts, _ → _))

variable {embedding : EmbeddingPort} {old : VaultFiles}

/-- From an index that mirrors the last vault, a run mirrors the next one where no edited note
had chunks. -/
theorem Mirrors.sync (mirrors : ports.Mirrors db old)
    (noCollision : ∀ before ∈ old.files, ∀ file ∈ vault.files,
      ports.sha256Hex before.content = ports.sha256Hex file.content → before.content = file.content)
    (unchunked : ports.EditsUnchunked db vault) :
    ports.Mirrors (ports.syncVault embedding db vault).1 vault := by
  have run := syncVault_spec ports embedding mirrors.wellFormed vault
  refine ⟨run.1, ?_⟩
  intro path
  rw [run.2, VaultPorts.synced]
  cases found : vault.files.find? fun file => file.path = path with
  | none => rfl
  | some file =>
    obtain ⟨listed, at_path⟩ := (KeyedList.find?_eq_some_iff vault.distinct).mp found
    simp only [Option.map_some]
    by_cases outdated : Outdated (db.entry path) (ports.sha256Hex file.content)
    -- the note is indexed anew, and there was no chunk to stay behind
    · have dropped := (editsUnchunked_iff mirrors.wellFormed).mp unchunked file listed
      rw [at_path] at dropped
      rw [if_pos outdated, dropped outdated, List.nil_append]
    · -- the stored digest is the current one, so the text is the current one
      rw [if_neg outdated]
      have held := mirrors.entries path
      simp only [Outdated, not_not] at outdated
      rw [held] at outdated ⊢
      cases before : old.files.find? fun file => file.path = path with
      | none =>
        rw [before] at outdated
        cases outdated
      | some earlier =>
        rw [before] at outdated
        have digest : ports.sha256Hex earlier.content = ports.sha256Hex file.content := by
          simpa using outdated
        have same := noCollision earlier (List.mem_of_find?_eq_some before) file listed digest
        simp [same]

/-- A run that leaves the index synchronised added chunks to no note that had some. -/
theorem Mirrors.unchunked (mirrors : ports.Mirrors db old)
    (synced : ports.Synced (ports.syncVault embedding db vault).1 vault) :
    ports.EditsUnchunked db vault := by
  have run := syncVault_spec ports embedding mirrors.wellFormed vault
  rw [editsUnchunked_iff mirrors.wellFormed]
  intro file listed outdated
  -- the old chunks are still in front, so their number has to be zero
  have length := synced.length_chunks run.1 listed
  rw [run.2, VaultPorts.synced, find?_file listed] at length
  simp only [if_pos outdated, heldChunks, Option.map_some, Option.getD_some,
    List.length_append] at length
  exact List.eq_nil_of_length_eq_zero (by simpa [heldChunks] using length)

/-! ### Every sequence of runs -/

theorem eachRun_synced_iff {runs : List SyncRun} (mirrors : ports.Mirrors db old)
    (noCollision : ports.NoCollision (old.files.map NoteFile.content ++ contents runs)) :
    ports.EachRun (fun db run =>
        ports.Synced (ports.syncVault run.embedding db run.vault).1 run.vault) db runs ↔
      ports.EachRun (fun db run => ports.EditsUnchunked db run.vault) db runs := by
  induction runs generalizing db old with
  | nil => exact Iff.rfl
  | cons run rest ih =>
    -- digests tell the texts of neighbouring runs apart
    have apart : ∀ before ∈ old.files, ∀ file ∈ run.vault.files,
        ports.sha256Hex before.content = ports.sha256Hex file.content →
          before.content = file.content := by
      intro before first file second same
      apply noCollision _ _ _ _ same
      · exact List.mem_append_left _ (List.mem_map_of_mem first)
      · apply List.mem_append_right
        exact List.mem_append_left _ (List.mem_map_of_mem second)
    have later : ports.NoCollision (run.vault.files.map NoteFile.content ++ contents rest) := by
      intro a first b second same
      exact noCollision a (List.mem_append_right _ first) b (List.mem_append_right _ second) same
    simp only [EachRun]
    constructor
    · rintro ⟨synced, others⟩
      have unchunked := mirrors.unchunked synced
      exact ⟨unchunked, (ih (mirrors.sync apart unchunked) later).mp others⟩
    · rintro ⟨unchunked, others⟩
      have next : ports.Mirrors (ports.syncVault run.embedding db run.vault).1 run.vault :=
        mirrors.sync apart unchunked
      exact ⟨next.synced, (ih next later).mpr others⟩

/-- From an empty index, every run of a sequence leaves exactly the current notes with the
chunks of their current text, if and only if no run met an edited note with chunk rows. -/
theorem runs_synced_iff (ports : VaultPorts) (runs : List SyncRun)
    (noCollision : ports.NoCollision (contents runs)) :
    ports.EachRun (fun db run =>
        ports.Synced (ports.syncVault run.embedding db run.vault).1 run.vault) .empty runs ↔
      ports.EachRun (fun db run => ports.EditsUnchunked db run.vault) .empty runs := by
  have mirrors : ports.Mirrors .empty ⟨[], .nil⟩ := ⟨wellFormed_empty, fun _ => rfl⟩
  exact eachRun_synced_iff mirrors noCollision

/-! ### A vault that has not changed -/

/-- A run that finds every note under its digest, and no other, writes nothing. -/
theorem syncVault_current
    (current : ∀ file ∈ vault.files, ¬ Outdated (db.entry file.path) (ports.sha256Hex file.content))
    (inside : ∀ row ∈ db.notes, row.path ∈ vault.files.map NoteFile.path) :
    (ports.syncVault embedding db vault).1 = db := by
  refine List.foldlRecOn (β := NoteRepository × SyncSummary) (motive := (·.1 = db)) _ _
    (List.foldlRecOn (β := NoteRepository × SyncSummary) (motive := (·.1 = db)) _ _ rfl ?_) ?_
  · rintro ⟨held, summary⟩ rfl note listed
    obtain ⟨file, member, rfl⟩ := List.mem_map.mp listed
    have digest := listIndexedNotes_find? held file.path
    rw [not_not.mp (current file member)] at digest
    obtain ⟨known, found, same⟩ := Option.map_eq_some_iff.mp digest
    simp [syncNote, found, same]
  · rintro ⟨_, summary⟩ rfl known listed
    obtain ⟨row, member, rfl⟩ := List.mem_map.mp listed
    have present := inside row member
    simp_all [removeStale, readVaultNotes]

/-- After any runs, a second run over the same vault leaves every row of the index as it is,
whatever model it embeds with. -/
theorem syncVault_again (ports : VaultPorts) (runs : List SyncRun) (run : SyncRun) (other : EmbeddingPort) :
    let index := runs.foldl (fun db run => (ports.syncVault run.embedding db run.vault).1) .empty
    let after := (ports.syncVault run.embedding index run.vault).1
    (ports.syncVault other after run.vault).1 = after := by
  intro index after
  have wellFormed : index.WellFormed :=
    List.foldlRecOn (motive := WellFormed) _ _ wellFormed_empty fun _ wellFormed run _ =>
      (syncVault_spec ports run.embedding wellFormed run.vault).1
  obtain ⟨kept, entries⟩ := syncVault_spec ports run.embedding wellFormed run.vault
  refine syncVault_current (fun file listed => ?_) fun row listed => ?_
  · rw [entries, synced, find?_file listed]
    dsimp only
    split <;> simp_all [Outdated]
  · have held := entries row.path
    rw [entry, kept.find?.mpr ⟨listed, rfl⟩, synced] at held
    cases found : run.vault.files.find? fun file => file.path = row.path with
    | none => simp [found] at held
    | some file =>
      obtain ⟨listed, same⟩ := (KeyedList.find?_eq_some_iff run.vault.distinct).mp found
      exact List.mem_map.mpr ⟨file, listed, same⟩

end VaultPorts

/-! A note that is edited between two runs. -/

namespace EditedNote

def may : String := "# Plan\nship in May"

def june : String := "# Plan\nship in June"

/-- The two texts with their digests; each is one chunk. -/
def ports : VaultPorts where
  sha256Hex text :=
    if text = may then "a3d49e5c2e90f81e798a77ef864e3921aa557240f77a3ed088d2123e3cecd79d"
    else "bd10b7447530a006b10cf844db3dda66d1a6e4d6468851ad52fe886f04837583"
  chunkText text := [text]

def embedding : EmbeddingPort where
  embedBatch texts := texts.map fun _ => [0x3f800000#32]
  onePerChunk texts := by simp

def run (content : String) : SyncRun := ⟨embedding, ⟨[⟨"plan.md", content, 0⟩], by simp⟩⟩

end EditedNote

open VaultPorts in
open EditedNote in
/-- After the edit the chunk of the old text is still returned. -/
theorem stale_chunk_returned :
    ((ports.syncVault embedding (ports.syncVault embedding .empty (run may).vault).1
        (run june).vault).1.loadAllVectors.map fun vectors =>
      vectors.map fun vector => (vector.notePath, vector.content, vector.chunkIndex)) =
        some [("plan.md", may, 0), ("plan.md", june, 0)] ∧
      ¬ ∀ (ports : VaultPorts) (runs : List SyncRun), ports.NoCollision (contents runs) →
        ports.EachRun (fun db run =>
          ports.Synced (ports.syncVault run.embedding db run.vault).1 run.vault) .empty runs := by
  have returned : ((ports.syncVault embedding (ports.syncVault embedding .empty (run may).vault).1
      (run june).vault).1.loadAllVectors.map fun vectors =>
        vectors.map fun vector => (vector.notePath, vector.content, vector.chunkIndex)) =
      some [("plan.md", may, 0), ("plan.md", june, 0)] := by decide
  refine ⟨returned, ?_⟩
  intro synced
  obtain ⟨-, ⟨-, vectors, loaded, same⟩, -⟩ := synced ports [run may, run june] (by decide)
  change NoteRepository.loadAllVectors (ports.syncVault embedding
    (ports.syncVault embedding .empty (run may).vault).1 (run june).vault).1 = some vectors at loaded
  rw [loaded] at returned
  have listed := Option.some.inj returned
  simp only at listed
  rw [listed] at same
  exact absurd same.length_eq (by decide)

open VaultPorts in
open EditedNote in
/-- Two runs over an unchanged vault. -/
theorem unchanged_vault_synced :
    ports.EachRun (fun db run =>
      ports.Synced (ports.syncVault run.embedding db run.vault).1 run.vault) .empty
        [run may, run may] := by
  apply (runs_synced_iff ports [run may, run may] (by decide)).mpr
  refine ⟨?_, ?_, trivial⟩
  · intro file _ row stored
    cases stored
  · intro file listed row stored _ changed
    have only : file = ⟨"plan.md", may, 0⟩ := List.mem_singleton.mp listed
    have digests : ∀ row ∈ (ports.syncVault embedding .empty (run may).vault).1.notes,
        row.contentHash = ports.sha256Hex may := by decide
    rw [only] at changed
    exact absurd (digests row stored) changed

end Webfang.Vault
