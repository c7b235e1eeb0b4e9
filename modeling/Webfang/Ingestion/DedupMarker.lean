import Mathlib.Data.Set.Function
import Webfang.Library.Transition
import Webfang.Ingestion.ElasticIngestion

/-!
# The dedup marker

The resource row is written before the chunks and later tells a run that its page is
already stored. It tells the truth in every sequence of runs none of which loses a chunk
after its row went in.
-/
namespace Webfang.Ingestion

open Library Domain
open Vault (F32)

namespace ElasticIngestion

variable {ingestion : ElasticIngestion} {contents : Set Bytes} {db : Database} {run : Run}
  {bytes : Bytes}

/-- The page has a row with the content's hash and, under that row's URL, every chunk of the
content. -/
def Stored (ingestion : ElasticIngestion) (db : Database) (url : String) (bytes : Bytes) : Prop :=
  ∃ row ∈ db.resources, ingestion.samePage row.url url ∧
    row.contentHash = (ingestion.sha256Hex bytes).asStr ∧
    chunkRows row.url (ingestion.sha256Hex bytes) 0 (ingestion.chunksOf bytes) ⊆ db.chunks

/-- The run inserts its row and then fails at one of its chunks. -/
def CutShort (ingestion : ElasticIngestion) (db : Database) (run : Run) : Prop :=
  ∃ bytes, ingestion.InsertsRow db run bytes ∧
    ∃ i < (ingestion.chunksOf bytes).length, run.saveChunk i ≠ none

/-- The run may fail at any step but is not cut short, and what it downloads, if anything, is
one of the contents. -/
def Intact (ingestion : ElasticIngestion) (contents : Set Bytes) (db : Database) (run : Run) : Prop :=
  (∀ bytes, run.download = .ok bytes → bytes ∈ contents) ∧ ¬ ingestion.CutShort db run

/-- Every row has the chunks of a content with its hash, and every chunk has its row. -/
structure Whole (ingestion : ElasticIngestion) (contents : Set Bytes) (db : Database) : Prop where
  stored : ∀ row ∈ db.resources, ∃ bytes ∈ contents,
    row.contentHash = (ingestion.sha256Hex bytes).asStr ∧
    chunkRows row.url (ingestion.sha256Hex bytes) 0 (ingestion.chunksOf bytes) ⊆ db.chunks
  owned : ∀ chunk ∈ db.chunks, ∃ row ∈ db.resources, ∃ hash i,
    row.contentHash = hash.asStr ∧ chunk.id = chunkId hash i

theorem Whole.empty : ingestion.Whole contents Database.empty := ⟨nofun, nofun⟩

theorem asStr_inj {hash hash' : Sha256Hex} (same : hash.asStr = hash'.asStr) : hash = hash' := by
  cases hash
  cases hash'
  cases same
  rfl

theorem sha256Hex_inj (collisionFree : Set.InjOn ingestion.digest contents) {bytes other : Bytes}
    (left : bytes ∈ contents) (right : other ∈ contents)
    (same : (ingestion.sha256Hex bytes).asStr = (ingestion.sha256Hex other).asStr) : bytes = other :=
  collisionFree left right (Sha256Hex.fromDigest_inj (asStr_inj same))

/-- A hash no row has names no chunk either. -/
theorem Whole.unused (whole : ingestion.Whole contents db) {hash : Sha256Hex}
    (unknown : db.urlByHash hash.asStr = none) (i : Nat) : db.hasChunk (chunkId hash i) = false := by
  rw [Bool.eq_false_iff, ne_eq, Database.hasChunk_iff]
  rintro ⟨chunk, member, named⟩
  obtain ⟨row, present, other, j, hashed, id⟩ := whole.owned chunk member
  obtain ⟨rfl, -⟩ := chunkId_inj (named.symm.trans id)
  exact Database.urlByHash_eq_none.mp unknown row present hashed

/-- The chunks of a content whose hash some row has are all there. -/
theorem Whole.known (whole : ingestion.Whole contents db)
    (collisionFree : Set.InjOn ingestion.digest contents) (offered : bytes ∈ contents)
    {existing : String} (url : String)
    (found : db.urlByHash (ingestion.sha256Hex bytes).asStr = some existing) :
    ∀ row ∈ chunkRows url (ingestion.sha256Hex bytes) 0 (ingestion.chunksOf bytes),
      db.hasChunk row.id = true := by
  obtain ⟨row, present, hashed, -⟩ := Database.urlByHash_eq_some found
  obtain ⟨other, member, same, chunks⟩ := whole.stored row present
  obtain rfl := sha256Hex_inj collisionFree offered member (hashed.symm.trans same)
  -- the run offers them under its own URL; their ids are those the row's page stored
  intro offer offers
  rw [Database.hasChunk_iff]
  refine ⟨{ offer with resourceUrl := row.url }, chunks ?_, rfl⟩
  rw [← chunkRows_page url]
  exact List.mem_map_of_mem offers

theorem Whole.after_run (collisionFree : Set.InjOn ingestion.digest contents)
    (whole : ingestion.Whole contents db) (intact : ingestion.Intact contents db run) :
    ingestion.Whole contents (ingestion.run db run).1 := by
  rcases run_cases ingestion db run with
    same | ⟨bytes, existing, downloaded, found, -, offered⟩ | ⟨bytes, inserts, saved⟩
  · rwa [same]
  · rw [offered, saveChunks_known (whole.known collisionFree (intact.1 bytes downloaded) run.url found)]
    exact whole
  · have here : (ingestion.withRow db run bytes).hasResource run.url = true := by
      simp [withRow, Database.hasResource]
    -- the row is new, so an intact run writes every chunk of it
    have clear : ∀ i < (ingestion.chunksOf bytes).length, run.saveChunk (0 + i) = none := by
      intro i below
      rw [Nat.zero_add]
      by_contra lost
      exact intact.2 ⟨bytes, inserts, i, below, lost⟩
    rw [saved, saveChunks_fresh clear here fun i _ => whole.unused inserts.unknown i]
    constructor
    · intro row member
      rcases List.mem_append.mp member with old | new
      · obtain ⟨other, known, hashed, chunks⟩ := whole.stored row old
        exact ⟨other, known, hashed, fun chunk stored => List.mem_append_left _ (chunks stored)⟩
      · obtain rfl := List.mem_singleton.mp new
        exact ⟨bytes, intact.1 bytes inserts.downloaded, rfl, List.subset_append_right _ _⟩
    · intro chunk member
      rcases List.mem_append.mp member with old | new
      · obtain ⟨row, present, named⟩ := whole.owned chunk old
        exact ⟨row, List.mem_append_left _ present, named⟩
      · obtain ⟨-, i, -, named⟩ := mem_chunkRows new
        exact ⟨_, List.mem_append_right _ (List.mem_singleton_self _), _, i, rfl, named⟩

/-- What a run that calls its page a duplicate has seen, and that it does nothing else. -/
theorem run_of_duplicate (downloaded : run.download = .ok bytes)
    (duplicate : ingestion.isDuplicate db run (ingestion.sha256Hex bytes) = .ok true) :
    ingestion.run db run = (db, .ok ()) ∧ ∃ existing,
      db.urlByHash (ingestion.sha256Hex bytes).asStr = some existing ∧
      ingestion.samePage existing run.url := by
  refine ⟨by simp [ElasticIngestion.run, downloaded, duplicate], ?_⟩
  cases looked : run.lookup with
  | some cause => simp [isDuplicate, Database.resourceExistsByHash, looked] at duplicate
  | none =>
    cases found : db.urlByHash (ingestion.sha256Hex bytes).asStr with
    | none => simp [isDuplicate, Database.resourceExistsByHash, looked, found] at duplicate
    | some existing =>
      refine ⟨existing, rfl, ?_⟩
      simpa [isDuplicate, Database.resourceExistsByHash, looked, found] using duplicate

/-- After any sequence of runs, failing anywhere but never between a row and its chunks, a run
that skips its page as a duplicate leaves a page that is stored. -/
theorem skipped_pages_are_stored (collisionFree : Set.InjOn ingestion.digest contents)
    (reached : Reachable (fun db run db' => (ingestion.run db run).1 = db')
      (ingestion.Intact contents) Database.empty db)
    (offered : bytes ∈ contents) (downloaded : run.download = .ok bytes)
    (duplicate : ingestion.isDuplicate db run (ingestion.sha256Hex bytes) = .ok true) :
    (ingestion.run db run).2 = .ok () ∧
      ingestion.Stored (ingestion.run db run).1 run.url bytes := by
  have whole : ingestion.Whole contents db :=
    reached.invariant Whole.empty fun db run db' whole intact taken => by
      subst taken
      exact whole.after_run collisionFree intact
  obtain ⟨skipped, existing, found, page⟩ := run_of_duplicate downloaded duplicate
  obtain ⟨row, present, hashed, rfl⟩ := Database.urlByHash_eq_some found
  obtain ⟨other, member, same, chunks⟩ := whole.stored row present
  obtain rfl := sha256Hex_inj collisionFree offered member (hashed.symm.trans same)
  rw [skipped]
  exact ⟨rfl, row, present, page, hashed, chunks⟩

end ElasticIngestion

/-! A page of two lines, each a chunk of its own. -/

namespace TwoLines

/-- `one` and `two`, each on its line. -/
def page : Bytes := [111, 110, 101, 10, 116, 119, 111]

/-- The SHA-256 digest of the page; no other content is hashed here. -/
def digest (bytes : Bytes) : Digest :=
  if bytes = page then
    #v[0x21, 0x06, 0x6d, 0x10, 0x8d, 0x53, 0x19, 0xec, 0xb5, 0xa1, 0xfc, 0x44, 0x54, 0xf4, 0x2e, 0xf2,
       0x2f, 0xc5, 0xf1, 0xc7, 0xdf, 0x49, 0xc3, 0x1d, 0x90, 0x29, 0x49, 0x50, 0xe0, 0xea, 0x8b, 0x2c]
  else Vector.replicate 32 0

def ascii (bytes : Bytes) : String := String.ofList (bytes.map fun byte => Char.ofNat byte.toNat)

def lines (text : String) : List ProcessedChunk :=
  (text.toList.splitOn '\n').map fun line => ⟨String.ofList line, none⟩

def ingestion : ElasticIngestion where
  crates := plainUrls
  digest := digest
  fromUtf8Lossy := ascii
  process := id
  cleaner := some lines
  foreignKeys := true

def url : String := "https://a.test/"

/-- A run that nothing disturbs. -/
def undisturbed : Run := ⟨url, .ok page, none, none, none, none, fun _ => none⟩

/-- The second chunk does not reach the table. -/
def cutShort : Run :=
  { undisturbed with saveChunk := fun idx => if idx = 1 then some (.statement "disk I/O error") else none }

/-- The row's insert fails, before any chunk. -/
def refused : Run := { undisturbed with saveInsert := some (.statement "disk I/O error") }

theorem chunksOf_page : ingestion.chunksOf page = [⟨"one", none⟩, ⟨"two", none⟩] := by
  decide

open ElasticIngestion

/-- The run that lost its second chunk reports the failure; the next one calls the page a
duplicate and returns, and the chunk is never stored. -/
theorem lost_chunk_is_skipped :
    (ingestion.run .empty cutShort).2 = .error (.persistence "save_chunk: disk I/O error") ∧
    (let db := (ingestion.run .empty cutShort).1
     ingestion.isDuplicate db undisturbed (ingestion.sha256Hex page) = .ok true ∧
     ingestion.run db undisturbed = (db, .ok ()) ∧ ¬ ingestion.Stored db url page) := by
  refine ⟨by decide, by decide, by decide, ?_⟩
  rintro ⟨row, -, -, -, chunks⟩
  have stored : ∃ chunk ∈ (ingestion.run .empty cutShort).1.chunks, chunk.chunkIndex = 1 :=
    ⟨⟨chunkId (ingestion.sha256Hex page) 1, row.url, 1, "two", none⟩,
      chunks (by simp [chunksOf_page, chunkRows]), rfl⟩
  exact absurd stored (by decide)

/-- A run that never inserts its row, one that stores the page, and the one that skips it. -/
theorem skipped_page_is_stored :
    (ingestion.run (ingestion.run .empty undisturbed).1 undisturbed).2 = .ok () ∧
    ingestion.Stored (ingestion.run (ingestion.run .empty undisturbed).1 undisturbed).1 url page := by
  have intact (run : Run) (offers : run.download = .ok page)
      (whole : run.saveInsert ≠ none ∨ run.saveChunk = fun _ => none) (db : Database) :
      ingestion.Intact {page} db run := by
    constructor
    · intro bytes downloaded
      rw [offers] at downloaded
      cases downloaded
      rfl
    · rintro ⟨bytes, inserts, i, -, lost⟩
      rcases whole with fails | clear
      · exact fails inserts.inserted
      · exact lost (by rw [clear])
  refine skipped_pages_are_stored
    (show Set.InjOn ingestion.digest {page} from Set.injOn_singleton _ _) ?_ rfl rfl
    (by decide)
  have refusedRun : (ingestion.run .empty refused).1 = .empty := by decide
  refine .step (e := undisturbed) (.step (e := refused) .start (intact _ rfl (.inl (by decide)) _) rfl)
    (intact _ rfl (.inr rfl) _) ?_
  rw [refusedRun]

end TwoLines

end Webfang.Ingestion
