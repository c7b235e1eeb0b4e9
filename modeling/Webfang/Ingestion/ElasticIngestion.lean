import Webfang.Domain.UrlValidation
import Webfang.Ingestion.SqliteRepository

/-!
# Ingestion runs

`ElasticIngestion::run` of `application/elastic_ingestion.rs` over the resource store. The
hash function, the URL crates, the content processor and the semantic cleaner are
parameters; what the outside does to one run (the download, the failures) is an input of
that run.
-/
namespace Webfang.Ingestion

open Library Domain
open Vault (F32 f32SliceToBytes)

abbrev Bytes := List UInt8

structure ProcessedChunk where
  content : String
  embedding : Option (List F32)
  deriving DecidableEq, Repr

/-- What an orchestrator is built from, with the crates behind it. -/
structure ElasticIngestion where
  crates : UrlCrates
  digest : Bytes → Digest
  fromUtf8Lossy : Bytes → String
  /-- The processor of the CPU bridge. -/
  process : String → String
  /-- The semantic cleaner's chunks of a text, when one is set. -/
  cleaner : Option (String → List ProcessedChunk)
  /-- Whether the linked SQLite enforces `REFERENCES`. -/
  foreignKeys : Bool

inductive CleaningFailure where
  /-- The cleaner's own error. -/
  | cleaner (cause : String)
  /-- The bridge's answer, such as a caught panic. -/
  | processor (error : ScraperError)
  | channelClosed
  deriving DecidableEq, Repr

/-- One call of `run` with everything the outside does to it; `none` is success. -/
structure Run where
  url : String
  download : Except ScraperError Bytes
  /-- The lookup of `is_duplicate`. -/
  lookup : Option CallFailure
  cleaning : Option CleaningFailure
  /-- The lookup inside `save_resource`, and its `INSERT`. -/
  saveLookup : Option CallFailure
  saveInsert : Option CallFailure
  /-- The `save_chunk` call of each index. -/
  saveChunk : Nat → Option CallFailure

/-- The title is the trimmed first line of the first chunk, at most 200 characters of it. -/
def extractTitle : List ProcessedChunk → String
  | [] => ""
  | chunk :: _ =>
    let line := String.ofList (chunk.content.toList.takeWhile (· ≠ '\n'))
    String.ofList ((Text.trim line).toList.take 200)

/-- `format!("{hash}-{idx}")`. -/
def chunkId (hash : Sha256Hex) (idx : Nat) : String := hash.asStr ++ "-" ++ toString idx

namespace ElasticIngestion

variable (ingestion : ElasticIngestion)

def sha256Hex (bytes : Bytes) : Sha256Hex := .fromDigest (ingestion.digest bytes)

/-- The chunks of a page: the cleaner's, or the bridge's one text without an embedding. -/
def chunksOf (bytes : Bytes) : List ProcessedChunk :=
  match ingestion.cleaner with
  | some clean => clean (ingestion.fromUtf8Lossy bytes)
  | none => [⟨ingestion.process (ingestion.fromUtf8Lossy bytes), none⟩]

def cleanChunks (failure : Option CleaningFailure) (bytes : Bytes) :
    Except ScraperError (List ProcessedChunk) :=
  match failure with
  | none => .ok (ingestion.chunksOf bytes)
  | some (.cleaner cause) => .error (.ingestion ("limpieza semántica falló: " ++ cause))
  | some (.processor error) => .error error
  | some .channelClosed => .error (.ingestion "canal CPU bridge cerrado prematuramente")

/-- The two URLs name one page: they have one canonical form. -/
def samePage (url other : String) : Prop :=
  ingestion.crates.canonicalKey url = ingestion.crates.canonicalKey other

instance : DecidableRel ingestion.samePage :=
  fun url other => inferInstanceAs (Decidable
    (ingestion.crates.canonicalKey url = ingestion.crates.canonicalKey other))

def isDuplicate (db : Database) (run : Run) (hash : Sha256Hex) : Except ScraperError Bool :=
  match db.resourceExistsByHash run.lookup hash.asStr with
  | .error e => .error e
  | .ok none => .ok false
  | .ok (some existing) => .ok (decide (ingestion.samePage existing run.url))

/-- The loop over the chunks, from index `idx` on. What it saved before a failure stays. -/
def saveChunks (run : Run) (hash : Sha256Hex) :
    Database → Nat → List ProcessedChunk → Database × Except ScraperError Unit
  | db, _, [] => (db, .ok ())
  | db, idx, chunk :: rest =>
    match db.saveChunk ingestion.foreignKeys (run.saveChunk idx) (chunkId hash idx) run.url idx
        chunk.content chunk.embedding with
    | .error e => (db, .error e)
    | .ok db => saveChunks run hash db (idx + 1) rest

def persistChunks (db : Database) (run : Run) (hash : Sha256Hex) (size : Nat)
    (chunks : List ProcessedChunk) : Database × Except ScraperError Unit :=
  match db.saveResource run.saveLookup run.saveInsert run.url (extractTitle chunks) hash.asStr size with
  | .error e => (db, .error e)
  -- the chunks go on under the run's URL, also where the row found is another page's
  | .ok (_, db) => ingestion.saveChunks run hash db 0 chunks

/-- `run`: the tables it leaves, and what it returns. -/
def run (db : Database) (run : Run) : Database × Except ScraperError Unit :=
  match run.download with
  | .error e => (db, .error e)
  | .ok bytes =>
    let hash := ingestion.sha256Hex bytes
    match ingestion.isDuplicate db run hash with
    | .error e => (db, .error e)
    | .ok true => (db, .ok ())
    | .ok false =>
      match ingestion.cleanChunks run.cleaning bytes with
      | .error e => (db, .error e)
      | .ok chunks => ingestion.persistChunks db run hash bytes.length chunks

end ElasticIngestion

/-! ### Chunk ids -/

/-- The digest is of one length, so the id can be cut at its dash. -/
theorem chunkId_inj {hash hash' : Sha256Hex} {i j : Nat} (same : chunkId hash i = chunkId hash' j) :
    hash = hash' ∧ i = j := by
  have chars := congrArg String.toList same
  simp only [chunkId, String.toList_append, List.append_assoc] at chars
  obtain ⟨digest, rest⟩ := List.append_inj chars (hash.valid.1.trans hash'.valid.1.symm)
  have index : (toString i).toList = (toString j).toList := List.append_cancel_left rest
  constructor
  · cases hash
    cases hash'
    cases String.toList_inj.mp digest
    rfl
  · have digits : Nat.toDigits 10 i = Nat.toDigits 10 j := by simpa using index
    rw [← Nat.ofDigitChars_ten_toDigits (n := i), digits, Nat.ofDigitChars_ten_toDigits]

/-- The rows of a page's chunks from index `idx` on. -/
def chunkRows (url : String) (hash : Sha256Hex) : Nat → List ProcessedChunk → List ChunkRow
  | _, [] => []
  | idx, chunk :: rest =>
    ⟨chunkId hash idx, url, idx, chunk.content, chunk.embedding.map f32SliceToBytes⟩ ::
      chunkRows url hash (idx + 1) rest

theorem mem_chunkRows {url : String} {hash : Sha256Hex} {idx : Nat} {chunks : List ProcessedChunk}
    {row : ChunkRow} (member : row ∈ chunkRows url hash idx chunks) :
    row.resourceUrl = url ∧ ∃ i, idx ≤ i ∧ row.id = chunkId hash i := by
  induction chunks generalizing idx with
  | nil => cases member
  | cons chunk rest ih =>
    rcases List.mem_cons.mp member with rfl | member
    · exact ⟨rfl, idx, le_rfl, rfl⟩
    · obtain ⟨page, i, later, named⟩ := ih member
      exact ⟨page, i, by omega, named⟩

theorem chunkRows_page (url other : String) (hash : Sha256Hex) (idx : Nat)
    (chunks : List ProcessedChunk) : (chunkRows url hash idx chunks).map
      (fun row => { row with resourceUrl := other }) = chunkRows other hash idx chunks := by
  induction chunks generalizing idx with
  | nil => rfl
  | cons chunk rest ih => simp [chunkRows, ih]

namespace ElasticIngestion

variable {ingestion : ElasticIngestion} {db : Database} {run : Run} {hash : Sha256Hex} {idx : Nat}
  {chunks : List ProcessedChunk}

/-! ### The loop over the chunks -/

theorem saveChunks_resources :
    (ingestion.saveChunks run hash db idx chunks).1.resources = db.resources := by
  induction chunks generalizing db idx with
  | nil => rfl
  | cons chunk rest ih =>
    unfold saveChunks
    cases saved : db.saveChunk ingestion.foreignKeys (run.saveChunk idx) (chunkId hash idx) run.url
        idx chunk.content chunk.embedding with
    | error e => rfl
    | ok next => exact ih.trans (Database.saveChunk_ok saved).1

theorem saveChunks_chunks {chunk : ChunkRow} (stored : chunk ∈ db.chunks) :
    chunk ∈ (ingestion.saveChunks run hash db idx chunks).1.chunks := by
  induction chunks generalizing db idx with
  | nil => exact stored
  | cons offered rest ih =>
    unfold saveChunks
    cases saved : db.saveChunk ingestion.foreignKeys (run.saveChunk idx) (chunkId hash idx) run.url
        idx offered.content offered.embedding with
    | error e => exact stored
    | ok next => exact ih ((Database.saveChunk_ok saved).2 chunk stored)

/-- With the page's row in place and its ids unused, every chunk gets its row. -/
theorem saveChunks_fresh (clear : ∀ i < chunks.length, run.saveChunk (idx + i) = none)
    (parent : db.hasResource run.url = true)
    (unused : ∀ i, idx ≤ i → db.hasChunk (chunkId hash i) = false) :
    ingestion.saveChunks run hash db idx chunks =
      ({ db with chunks := db.chunks ++ chunkRows run.url hash idx chunks }, .ok ()) := by
  induction chunks generalizing db idx with
  | nil => simp [saveChunks, chunkRows]
  | cons chunk rest ih =>
    have first : run.saveChunk idx = none := clear 0 (by simp)
    simp only [saveChunks, Database.saveChunk, first, unused idx le_rfl, parent, Bool.not_true,
      Bool.and_false, Bool.false_eq_true, if_false]
    rw [ih]
    · simp [chunkRows]
    · intro i below
      rw [Nat.add_assoc, Nat.add_comm 1 i]
      exact clear (i + 1) (by simpa using below)
    · exact parent
    · -- the row just added has another index
      intro i later
      have old := unused i (by omega)
      simp only [Database.hasChunk, List.any_append, List.any_cons, List.any_nil, Bool.or_false,
        Bool.or_eq_false_iff, decide_eq_false_iff_not] at old ⊢
      refine ⟨old, fun same => ?_⟩
      have index := (chunkId_inj same).2
      omega

/-- Where every id is known, nothing is written: each call is ignored or fails. -/
theorem saveChunks_known {url : String}
    (known : ∀ row ∈ chunkRows url hash idx chunks, db.hasChunk row.id = true) :
    (ingestion.saveChunks run hash db idx chunks).1 = db := by
  induction chunks generalizing idx with
  | nil => rfl
  | cons chunk rest ih =>
    have first : db.hasChunk (chunkId hash idx) = true := known _ List.mem_cons_self
    unfold saveChunks
    cases run.saveChunk idx with
    | some cause => rfl
    | none =>
      simp only [Database.saveChunk, first, if_true]
      exact ih fun row member => known row (List.mem_cons_of_mem _ member)

/-! ### What a run does -/

/-- The run gets as far as inserting its page's row: nothing fails before, and neither its
content nor its URL is in the table. -/
structure InsertsRow (ingestion : ElasticIngestion) (db : Database) (run : Run) (bytes : Bytes) :
    Prop where
  downloaded : run.download = .ok bytes
  looked : run.lookup = none
  cleaned : run.cleaning = none
  lookedAgain : run.saveLookup = none
  inserted : run.saveInsert = none
  unknown : db.urlByHash (ingestion.sha256Hex bytes).asStr = none
  unused : db.hasResource run.url = false

/-- The tables with the page's row. -/
def withRow (ingestion : ElasticIngestion) (db : Database) (run : Run) (bytes : Bytes) : Database :=
  { db with resources := db.resources ++
      [⟨run.url, extractTitle (ingestion.chunksOf bytes), (ingestion.sha256Hex bytes).asStr,
        bytes.length, "active"⟩] }

/-- A run leaves the tables as they were, or offers the chunks of a content known under
another page, or inserts its row and offers the chunks. -/
theorem run_cases (ingestion : ElasticIngestion) (db : Database) (run : Run) :
    (ingestion.run db run).1 = db ∨ (∃ bytes existing, run.download = .ok bytes ∧
      db.urlByHash (ingestion.sha256Hex bytes).asStr = some existing ∧
      ¬ ingestion.samePage existing run.url ∧
      ingestion.run db run =
        ingestion.saveChunks run (ingestion.sha256Hex bytes) db 0 (ingestion.chunksOf bytes)) ∨
    (∃ bytes, ingestion.InsertsRow db run bytes ∧
      ingestion.run db run = ingestion.saveChunks run (ingestion.sha256Hex bytes)
        (ingestion.withRow db run bytes) 0 (ingestion.chunksOf bytes)) := by
  unfold ElasticIngestion.run
  cases downloaded : run.download with
  | error e => exact .inl rfl
  | ok bytes =>
    simp only [isDuplicate, Database.resourceExistsByHash]
    cases looked : run.lookup with
    | some cause => exact .inl rfl
    | none =>
      cases cleaned : run.cleaning with
      | some failure =>
        -- the content is not cleaned: the run skips its page, or fails
        left
        cases db.urlByHash (ingestion.sha256Hex bytes).asStr <;> cases failure <;>
          simp only [cleanChunks] <;> split <;> simp_all
      | none =>
        simp only [cleanChunks, persistChunks]
        cases saved : db.saveResource run.saveLookup run.saveInsert run.url
            (extractTitle (ingestion.chunksOf bytes)) (ingestion.sha256Hex bytes).asStr
            bytes.length with
        | error e => left; split <;> simp_all
        | ok outcome =>
          obtain ⟨url, next⟩ := outcome
          obtain ⟨lookedAgain, known | fresh⟩ := Database.saveResource_ok saved
          · -- the row that has the hash may be the page's own
            obtain ⟨known, rfl⟩ := known
            simp only [known]
            by_cases page : ingestion.samePage url run.url
            · exact .inl (by simp [page])
            · exact .inr (.inl ⟨bytes, url, rfl, known, page, by simp [page]⟩)
          · obtain ⟨unknown, inserted, unused, rfl, rfl⟩ := fresh
            simp only [unknown]
            exact .inr (.inr ⟨bytes,
              ⟨downloaded, looked, cleaned, lookedAgain, inserted, unknown, unused⟩, rfl⟩)

end ElasticIngestion

end Webfang.Ingestion
