import Webfang.Ingestion.DedupMarker

/-!
# Page versions

Runs that nothing disturbs, over any URLs and contents. The tables are keyed by URL, the
lookup goes by hash, and both agree exactly when pages and contents correspond one to one.
-/
namespace Webfang.Ingestion

open Domain

/-- A URL with what it serves when the run downloads it. -/
structure Page where
  url : String
  content : Bytes
  deriving DecidableEq, Repr

def Page.run (page : Page) : Run := ⟨page.url, .ok page.content, none, none, none, none, fun _ => none⟩

namespace ElasticIngestion

variable (ingestion : ElasticIngestion)

/-- The rows of a page, under whichever of its URLs. -/
def pageRows (db : Database) (url : String) : List ResourceRow :=
  db.resources.filter fun row => ingestion.samePage row.url url

def pageChunks (db : Database) (url : String) : List ChunkRow :=
  db.chunks.filter fun chunk => ingestion.samePage chunk.resourceUrl url

/-- The page has one row, with the hash of its content, and the chunks of that content and no
others. -/
def Holds (db : Database) (page : Page) : Prop :=
  ∃ row, ingestion.pageRows db page.url = [row] ∧
    row.contentHash = (ingestion.sha256Hex page.content).asStr ∧
    ingestion.pageChunks db page.url =
      chunkRows row.url (ingestion.sha256Hex page.content) 0 (ingestion.chunksOf page.content)

def KeepsOthers (before after : Database) (page : Page) : Prop :=
  (∀ row ∈ before.resources, ¬ ingestion.samePage row.url page.url → row ∈ after.resources) ∧
  ∀ chunk ∈ before.chunks, ¬ ingestion.samePage chunk.resourceUrl page.url → chunk ∈ after.chunks

/-- Every run returns `Ok`, leaves the store holding the page it ingested and drops nothing
of the others. -/
def IngestsAll (db : Database) : List Page → Prop
  | [] => True
  | page :: rest =>
    let after := ingestion.run db page.run
    after.2 = .ok () ∧ ingestion.Holds after.1 page ∧ ingestion.KeepsOthers db after.1 page ∧
      IngestsAll after.1 rest

/-- Two pages are one exactly when their contents are. -/
def Matched (page other : Page) : Prop :=
  ingestion.samePage page.url other.url ↔ page.content = other.content

instance : DecidableRel ingestion.Matched := fun page other =>
  inferInstanceAs (Decidable (ingestion.samePage page.url other.url ↔ page.content = other.content))

variable {ingestion} {contents : Set Bytes} {db : Database} {page : Page}

/-! ### One undisturbed run -/

theorem undisturbed_cases (ingestion : ElasticIngestion) (db : Database) (page : Page) :
    (∃ existing, db.urlByHash (ingestion.sha256Hex page.content).asStr = some existing ∧
      ingestion.samePage existing page.url ∧ ingestion.run db page.run = (db, .ok ())) ∨
    (∃ existing, db.urlByHash (ingestion.sha256Hex page.content).asStr = some existing ∧
      ¬ ingestion.samePage existing page.url ∧ ingestion.run db page.run =
        ingestion.saveChunks page.run (ingestion.sha256Hex page.content) db 0
          (ingestion.chunksOf page.content)) ∨
    (db.urlByHash (ingestion.sha256Hex page.content).asStr = none ∧
      db.hasResource page.url = true ∧ (ingestion.run db page.run).1 = db ∧
      (ingestion.run db page.run).2 ≠ .ok ()) ∨
    (ingestion.InsertsRow db page.run page.content ∧ ingestion.run db page.run =
      ingestion.saveChunks page.run (ingestion.sha256Hex page.content)
        (ingestion.withRow db page.run page.content) 0 (ingestion.chunksOf page.content)) := by
  cases found : db.urlByHash (ingestion.sha256Hex page.content).asStr with
  | some existing =>
    by_cases same : ingestion.samePage existing page.url
    · exact .inl ⟨existing, rfl, same, by
        simp [ElasticIngestion.run, Page.run, isDuplicate, Database.resourceExistsByHash, found, same]⟩
    · exact .inr (.inl ⟨existing, rfl, same, by
        simp [ElasticIngestion.run, Page.run, isDuplicate, Database.resourceExistsByHash, found, same,
          cleanChunks, persistChunks, Database.saveResource]⟩)
  | none =>
    -- an unknown content is inserted, unless the URL has a row
    cases used : db.hasResource page.url with
    | true =>
      refine .inr (.inr (.inl ⟨rfl, rfl, ?_, ?_⟩)) <;>
        simp [ElasticIngestion.run, Page.run, isDuplicate, Database.resourceExistsByHash, found,
          cleanChunks, persistChunks, Database.saveResource, used]
    | false =>
      exact .inr (.inr (.inr ⟨⟨rfl, rfl, rfl, rfl, rfl, found, used⟩, by
        simp [ElasticIngestion.run, Page.run, isDuplicate, Database.resourceExistsByHash, found,
          cleanChunks, persistChunks, Database.saveResource, used, withRow]⟩))

/-! ### The store after a matched sequence -/

theorem matched_cons {seen : List Page} (new : ∀ old ∈ seen, ingestion.Matched old page)
    (matched : ∀ page ∈ seen, ∀ other ∈ seen, ingestion.Matched page other) :
    ∀ first ∈ page :: seen, ∀ second ∈ page :: seen, ingestion.Matched first second := by
  intro first member second member'
  rcases List.mem_cons.mp member with rfl | ingested <;>
    rcases List.mem_cons.mp member' with rfl | ingested'
  · exact iff_of_true rfl rfl
  · exact eq_comm.trans ((new second ingested').trans eq_comm)
  · exact new first ingested
  · exact matched first ingested second ingested'

/-- The store holds every page ingested so far and nothing else, and the pages are matched. -/
structure Mirrors (ingestion : ElasticIngestion) (seen : List Page) (db : Database) : Prop where
  held : ∀ page ∈ seen, ingestion.Holds db page
  rows : ∀ row ∈ db.resources, ∃ page ∈ seen,
    row.url = page.url ∧ row.contentHash = (ingestion.sha256Hex page.content).asStr
  owned : ∀ chunk ∈ db.chunks, ∃ row ∈ db.resources, chunk.resourceUrl = row.url ∧
    ∃ hash i, row.contentHash = hash.asStr ∧ chunk.id = chunkId hash i
  matched : ∀ page ∈ seen, ∀ other ∈ seen, ingestion.Matched page other

theorem Mirrors.empty : ingestion.Mirrors [] Database.empty := ⟨nofun, nofun, nofun, nofun⟩

theorem Holds.row {page : Page} (holds : ingestion.Holds db page) :
    ∃ row ∈ db.resources, ingestion.samePage row.url page.url ∧
      row.contentHash = (ingestion.sha256Hex page.content).asStr := by
  obtain ⟨row, single, hashed, -⟩ := holds
  have member : row ∈ ingestion.pageRows db page.url := single ▸ List.mem_singleton_self row
  obtain ⟨present, same⟩ := List.mem_filter.mp member
  exact ⟨row, present, of_decide_eq_true same, hashed⟩

theorem pageRows_congr {url other : String} (same : ingestion.samePage url other) :
    ingestion.pageRows db url = ingestion.pageRows db other :=
  List.filter_congr fun _ _ => decide_eq_decide.mpr (Eq.congr_right same)

theorem pageChunks_congr {url other : String} (same : ingestion.samePage url other) :
    ingestion.pageChunks db url = ingestion.pageChunks db other :=
  List.filter_congr fun _ _ => decide_eq_decide.mpr (Eq.congr_right same)

theorem Holds.respell {page other : Page} (holds : ingestion.Holds db page)
    (same : ingestion.samePage page.url other.url) (content : page.content = other.content) :
    ingestion.Holds db other := by
  rwa [Holds, ← pageRows_congr same, ← pageChunks_congr same, ← content]

theorem Mirrors.whole {seen : List Page} (mirrors : ingestion.Mirrors seen db)
    (covered : ∀ page ∈ seen, page.content ∈ contents) : ingestion.Whole contents db := by
  constructor
  · intro row present
    obtain ⟨page, member, named, hashed⟩ := mirrors.rows row present
    obtain ⟨own, single, -, chunks⟩ := mirrors.held page member
    have here : row ∈ ingestion.pageRows db page.url :=
      List.mem_filter.mpr ⟨present, by simp [samePage, named]⟩
    obtain rfl : row = own := by simpa [single] using here
    refine ⟨page.content, covered page member, hashed, ?_⟩
    rw [← chunks]
    exact fun chunk member => (List.mem_filter.mp member).1
  · intro chunk present
    obtain ⟨row, member, -, named⟩ := mirrors.owned chunk present
    exact ⟨row, member, named⟩

/-- A row with the page's hash was stored for a page with the page's content. -/
theorem Mirrors.of_hash {seen : List Page} (mirrors : ingestion.Mirrors seen db)
    (collisionFree : Set.InjOn ingestion.digest contents)
    (covered : ∀ page ∈ seen, page.content ∈ contents) (offered : page.content ∈ contents)
    {row : ResourceRow} (present : row ∈ db.resources)
    (hashed : row.contentHash = (ingestion.sha256Hex page.content).asStr) :
    ∃ old ∈ seen, row.url = old.url ∧ old.content = page.content := by
  obtain ⟨old, member, named, same⟩ := mirrors.rows row present
  exact ⟨old, member, named,
    sha256Hex_inj collisionFree (covered old member) offered (same.symm.trans hashed)⟩

theorem Mirrors.of_unknown {seen : List Page} (mirrors : ingestion.Mirrors seen db)
    (unknown : db.urlByHash (ingestion.sha256Hex page.content).asStr = none) :
    ∀ old ∈ seen, old.content ≠ page.content := by
  intro old member same
  obtain ⟨row, present, -, hashed⟩ := (mirrors.held old member).row
  exact Database.urlByHash_eq_none.mp unknown row present (same ▸ hashed)

/-! ### One more page -/

section Step

variable {seen : List Page} (mirrors : ingestion.Mirrors seen db)
  (collisionFree : Set.InjOn ingestion.digest contents)
  (covered : ∀ page ∈ seen, page.content ∈ contents) (offered : page.content ∈ contents)
include mirrors collisionFree covered offered

/-- The content is stored for this page already: the page is held, and it is matched with all
that were ingested. -/
theorem Mirrors.of_duplicate {existing : String}
    (found : db.urlByHash (ingestion.sha256Hex page.content).asStr = some existing)
    (same : ingestion.samePage existing page.url) :
    ingestion.Holds db page ∧ ∀ old ∈ seen, ingestion.Matched old page := by
  obtain ⟨row, present, hashed, rfl⟩ := Database.urlByHash_eq_some found
  obtain ⟨first, member, named, content⟩ :=
    mirrors.of_hash collisionFree covered offered present hashed
  rw [named] at same
  refine ⟨(mirrors.held first member).respell same content, fun old ingested => ?_⟩
  have linked := mirrors.matched old ingested first member
  rw [Matched, content] at linked
  rwa [Matched, samePage, ← show _ = _ from same]

/-- The content is stored for another page only: no row of this page carries its hash, and
the two pages do not match. -/
theorem Mirrors.of_mirror {existing : String}
    (found : db.urlByHash (ingestion.sha256Hex page.content).asStr = some existing)
    (other : ¬ ingestion.samePage existing page.url) :
    (∀ after : Database, after.resources = db.resources → ¬ ingestion.Holds after page) ∧
      ¬ ∀ old ∈ seen, ingestion.Matched old page := by
  obtain ⟨row, present, hashed, rfl⟩ := Database.urlByHash_eq_some found
  obtain ⟨first, member, named, content⟩ :=
    mirrors.of_hash collisionFree covered offered present hashed
  rw [named] at other
  constructor
  · intro after kept holds
    obtain ⟨own, here, same, hash⟩ := holds.row
    rw [kept] at here
    obtain ⟨second, ingested, spelled, served⟩ :=
      mirrors.of_hash collisionFree covered offered here hash
    -- two stored pages with this content are one page
    have linked : ingestion.samePage second.url first.url :=
      (mirrors.matched second ingested first member).mpr (served.trans content.symm)
    rw [spelled] at same
    exact other ((show _ = _ from linked).symm.trans same)
  · intro matched
    exact other ((matched first member).mpr content)

end Step

/-- The tables after a run that inserts its row and loses nothing. -/
def withPage (ingestion : ElasticIngestion) (db : Database) (page : Page) : Database :=
  { ingestion.withRow db page.run page.content with
    chunks := db.chunks ++ chunkRows page.url (ingestion.sha256Hex page.content) 0
      (ingestion.chunksOf page.content) }

theorem pageRows_withPage (url : String) : ingestion.pageRows (ingestion.withPage db page) url =
    ingestion.pageRows db url ++ if ingestion.samePage page.url url then
      [⟨page.url, extractTitle (ingestion.chunksOf page.content),
        (ingestion.sha256Hex page.content).asStr, page.content.length, "active"⟩] else [] := by
  by_cases same : ingestion.samePage page.url url <;>
    simp [pageRows, withPage, withRow, Page.run, List.filter_append, same]

theorem pageChunks_withPage (url : String) : ingestion.pageChunks (ingestion.withPage db page) url =
    ingestion.pageChunks db url ++ if ingestion.samePage page.url url then
      chunkRows page.url (ingestion.sha256Hex page.content) 0 (ingestion.chunksOf page.content)
      else [] := by
  have own : ∀ chunk ∈ chunkRows page.url (ingestion.sha256Hex page.content) 0
      (ingestion.chunksOf page.content), chunk.resourceUrl = page.url :=
    fun chunk member => (mem_chunkRows member).1
  simp only [pageChunks, withPage, List.filter_append]
  congr 1
  split
  next same => exact List.filter_eq_self.mpr fun chunk member => by simp [own chunk member, same]
  next other => exact List.filter_eq_nil_iff.mpr fun chunk member => by simp [own chunk member, other]

/-- A new page's row is the only one exactly when none of its URLs served another content. -/
theorem Mirrors.holds_withPage {seen : List Page} (mirrors : ingestion.Mirrors seen db) :
    ingestion.Holds (ingestion.withPage db page) page ↔
      ∀ old ∈ seen, ¬ ingestion.samePage old.url page.url := by
  have self : ingestion.samePage page.url page.url := rfl
  constructor
  · rintro ⟨row, single, -⟩ old member same
    rw [pageRows_withPage, if_pos self] at single
    obtain ⟨stale, present, spelled, -⟩ := (mirrors.held old member).row
    have here : stale ∈ ingestion.pageRows db page.url :=
      List.mem_filter.mpr ⟨present, decide_eq_true ((show _ = _ from spelled).trans same)⟩
    -- the stale row and the new one make two
    have length := congrArg List.length single
    have occupied := List.length_pos_of_mem here
    simp only [List.length_append, List.length_cons, List.length_nil] at length
    omega
  · intro apart
    -- the site had no row, so the new one is the only one
    have noRow : ∀ row ∈ db.resources, ¬ ingestion.samePage row.url page.url := by
      intro row present
      obtain ⟨old, member, named, -⟩ := mirrors.rows row present
      exact named ▸ apart old member
    have rows : ingestion.pageRows db page.url = [] :=
      List.filter_eq_nil_iff.mpr fun row present => by simp [noRow row present]
    have chunks : ingestion.pageChunks db page.url = [] := by
      refine List.filter_eq_nil_iff.mpr fun chunk present => ?_
      obtain ⟨row, member, named, -⟩ := mirrors.owned chunk present
      simp [named, noRow row member]
    refine ⟨_, by rw [pageRows_withPage, rows, if_pos self]; rfl, rfl, ?_⟩
    rw [pageChunks_withPage, chunks, if_pos self]
    rfl

theorem Mirrors.withPage {seen : List Page} (mirrors : ingestion.Mirrors seen db)
    (apart : ∀ old ∈ seen, ¬ ingestion.samePage old.url page.url)
    (unknown : ∀ old ∈ seen, old.content ≠ page.content) :
    ingestion.Mirrors (page :: seen) (ingestion.withPage db page) := by
  constructor
  · intro held member
    rcases List.mem_cons.mp member with rfl | member
    · exact mirrors.holds_withPage.mpr apart
    · have other : ¬ ingestion.samePage page.url held.url := fun same => apart held member same.symm
      rw [Holds, pageRows_withPage, pageChunks_withPage, if_neg other, if_neg other, List.append_nil,
        List.append_nil]
      exact mirrors.held held member
  · intro row member
    rcases List.mem_append.mp member with old | new
    · obtain ⟨served, ingested, named⟩ := mirrors.rows row old
      exact ⟨served, List.mem_cons_of_mem _ ingested, named⟩
    · obtain rfl := List.mem_singleton.mp new
      exact ⟨page, List.mem_cons_self, rfl, rfl⟩
  · intro chunk member
    rcases List.mem_append.mp member with old | new
    · obtain ⟨row, present, named⟩ := mirrors.owned chunk old
      exact ⟨row, List.mem_append_left _ present, named⟩
    · obtain ⟨named, i, -, id⟩ := mem_chunkRows new
      exact ⟨_, List.mem_append_right _ (List.mem_singleton_self _), named, _, i, rfl, id⟩
  · exact matched_cons (fun old ingested => iff_of_false (apart old ingested) (unknown old ingested))
      mirrors.matched

/-- The page is already in the list: the same store mirrors it once more. -/
theorem Mirrors.again {seen : List Page} (mirrors : ingestion.Mirrors seen db)
    (holds : ingestion.Holds db page) (matched : ∀ old ∈ seen, ingestion.Matched old page) :
    ingestion.Mirrors (page :: seen) db := by
  constructor
  · exact List.forall_mem_cons.mpr ⟨holds, mirrors.held⟩
  · intro row present
    obtain ⟨old, ingested, named⟩ := mirrors.rows row present
    exact ⟨old, List.mem_cons_of_mem _ ingested, named⟩
  · exact mirrors.owned
  · exact matched_cons matched mirrors.matched

/-- One more run does what is asked exactly when its page matches those before it, and then
the store mirrors it too. -/
theorem Mirrors.step {seen : List Page} (mirrors : ingestion.Mirrors seen db)
    (collisionFree : Set.InjOn ingestion.digest contents)
    (covered : ∀ page ∈ seen, page.content ∈ contents) (offered : page.content ∈ contents) :
    ((ingestion.run db page.run).2 = .ok () ∧ ingestion.Holds (ingestion.run db page.run).1 page ↔
      ∀ old ∈ seen, ingestion.Matched old page) ∧ ((∀ old ∈ seen, ingestion.Matched old page) →
      ingestion.Mirrors (page :: seen) (ingestion.run db page.run).1) := by
  rcases undisturbed_cases ingestion db page with
    ⟨existing, found, same, skipped⟩ | ⟨existing, found, other, offers⟩ |
    ⟨unknown, used, kept, failed⟩ | ⟨inserts, saved⟩
  · -- the same page with the same content
    obtain ⟨holds, matched⟩ := mirrors.of_duplicate collisionFree covered offered found same
    rw [skipped]
    exact ⟨iff_of_true ⟨rfl, holds⟩ matched, mirrors.again holds⟩
  · -- another page has the content, and keeps it
    obtain ⟨missing, unmatched⟩ := mirrors.of_mirror collisionFree covered offered found other
    refine ⟨iff_of_false ?_ unmatched, fun matched => absurd matched unmatched⟩
    rintro ⟨-, holds⟩
    rw [offers] at holds
    exact missing _ saveChunks_resources holds
  · -- the URL has a row, of another content
    obtain ⟨row, present, named⟩ := Database.hasResource_iff.mp used
    obtain ⟨old, ingested, spelled, -⟩ := mirrors.rows row present
    have unmatched : ¬ ∀ old ∈ seen, ingestion.Matched old page := fun matched =>
      mirrors.of_unknown unknown old ingested
        ((matched old ingested).mp (show _ = _ by rw [← spelled, named]))
    exact ⟨iff_of_false (fun done => failed done.1) unmatched, fun matched => absurd matched unmatched⟩
  · -- a content no page before had
    have fresh := mirrors.of_unknown inserts.unknown
    have whole := mirrors.whole covered
    have here : (ingestion.withRow db page.run page.content).hasResource page.run.url = true := by
      simp [withRow, Database.hasResource]
    have result : ingestion.run db page.run = (ingestion.withPage db page, .ok ()) := by
      rw [saved, saveChunks_fresh (fun _ _ => rfl) here fun i _ => whole.unused inserts.unknown i]
      rfl
    have apart : (∀ old ∈ seen, ingestion.Matched old page) ↔
        ∀ old ∈ seen, ¬ ingestion.samePage old.url page.url := by
      refine forall₂_congr fun old ingested => ?_
      exact iff_false_right (fresh old ingested)
    rw [result]
    refine ⟨?_, fun matched => mirrors.withPage (apart.mp matched) fresh⟩
    rw [apart, mirrors.holds_withPage, eq_self, true_and]

/-- No run takes a row away. -/
theorem run_keepsOthers (ingestion : ElasticIngestion) (db : Database) (page : Page) :
    ingestion.KeepsOthers db (ingestion.run db page.run).1 page := by
  rcases run_cases ingestion db page.run with
    same | ⟨bytes, existing, -, -, -, offered⟩ | ⟨bytes, inserts, saved⟩
  · rw [same]
    exact ⟨fun row present _ => present, fun chunk present _ => present⟩
  · rw [offered]
    exact ⟨fun row present _ => by rwa [saveChunks_resources],
      fun chunk present _ => saveChunks_chunks present⟩
  · rw [saved]
    refine ⟨fun row present _ => ?_, fun chunk present _ => saveChunks_chunks present⟩
    rw [saveChunks_resources]
    exact List.mem_append_left _ present

/-- In every sequence of undisturbed runs from the empty store, each run returns `Ok`, leaves
the page it ingested and keeps the others, exactly when no page of the sequence serves two
contents and no content is served by two pages. -/
theorem ingests_matched_pages (ingestion : ElasticIngestion) (pages : List Page)
    (collisionFree : Set.InjOn ingestion.digest {bytes | ∃ page ∈ pages, page.content = bytes}) :
    ingestion.IngestsAll Database.empty pages ↔ pages.Pairwise ingestion.Matched := by
  -- what has been ingested so far is carried along, with what the tables hold of it
  suffices general : ∀ (seen rest : List Page) (db : Database), ingestion.Mirrors seen db →
      (∀ page ∈ seen, ∃ p ∈ pages, p.content = page.content) → (∀ page ∈ rest, page ∈ pages) →
      (ingestion.IngestsAll db rest ↔
        (∀ old ∈ seen, ∀ page ∈ rest, ingestion.Matched old page) ∧ rest.Pairwise ingestion.Matched) by
    simpa using general [] pages .empty .empty nofun fun _ member => member
  intro seen rest
  induction rest generalizing seen with
  | nil => intro db _ _ _; simp [IngestsAll]
  | cons page rest ih =>
    intro db mirrors covered offered
    have here : ∃ p ∈ pages, p.content = page.content := ⟨page, offered page List.mem_cons_self, rfl⟩
    obtain ⟨stepped, mirrored⟩ := mirrors.step collisionFree covered here
    have later : ∀ p ∈ rest, p ∈ pages := fun p member => offered p (List.mem_cons_of_mem _ member)
    have known : ∀ p ∈ page :: seen, ∃ q ∈ pages, q.content = p.content :=
      List.forall_mem_cons.mpr ⟨here, covered⟩
    simp only [IngestsAll, List.pairwise_cons, List.forall_mem_cons]
    constructor
    · rintro ⟨done, holds, -, others⟩
      have matched := stepped.mp ⟨done, holds⟩
      obtain ⟨across, within⟩ := (ih _ _ (mirrored matched) known later).mp others
      exact ⟨fun old ingested => ⟨matched old ingested, across old (List.mem_cons_of_mem _ ingested)⟩,
        across page List.mem_cons_self, within⟩
    · rintro ⟨across, first, within⟩
      have matched : ∀ old ∈ seen, ingestion.Matched old page := fun old ingested => (across old ingested).1
      obtain ⟨done, holds⟩ := stepped.mpr matched
      refine ⟨done, holds, run_keepsOthers ingestion db page, (ih _ _ (mirrored matched) known later).mpr ⟨?_, within⟩⟩
      exact List.forall_mem_cons.mpr ⟨first, fun old ingested => (across old ingested).2⟩

end ElasticIngestion

/-! Two contents, `one` and `two`, with their SHA-256 digests. -/

namespace TwoVersions

def one : Bytes := [111, 110, 101]
def two : Bytes := [116, 119, 111]

def digest (bytes : Bytes) : Digest :=
  if bytes = one then
    #v[0x76, 0x92, 0xc3, 0xad, 0x35, 0x40, 0xbb, 0x80, 0x3c, 0x02, 0x0b, 0x3a, 0xee, 0x66, 0xcd, 0x88,
       0x87, 0x12, 0x32, 0x34, 0xea, 0x0c, 0x6e, 0x71, 0x43, 0xc0, 0xad, 0xd7, 0x3f, 0xf4, 0x31, 0xed]
  else if bytes = two then
    #v[0x3f, 0xc4, 0xcc, 0xfe, 0x74, 0x58, 0x70, 0xe2, 0xc0, 0xd9, 0x9f, 0x71, 0xf3, 0x0f, 0xf0, 0x65,
       0x6c, 0x8d, 0xed, 0xd4, 0x1c, 0xc1, 0xd7, 0xd3, 0xd3, 0x76, 0xb0, 0xdb, 0xe6, 0x85, 0xe2, 0xf3]
  else Vector.replicate 32 0

def ingestion : ElasticIngestion := { TwoLines.ingestion with digest := digest }

def first : Page := ⟨"https://a.test/", one⟩

/-- The same page under its other host name, unchanged. -/
def respelled : Page := ⟨"https://www.a.test/", one⟩

def changed : Page := ⟨"https://a.test/", two⟩

/-- Another page with the bytes of the first. -/
def mirror : Page := ⟨"https://b.test/", one⟩

open ElasticIngestion

/-- The page that changed is refused, and the page that serves known bytes gets no row. -/
theorem versions_are_not_stored : (let db := (ingestion.run .empty first.run).1
     (ingestion.run db changed.run).2 =
       .error (.persistence "save_resource: UNIQUE constraint failed: resources.url") ∧
     (ingestion.run db mirror.run).2 = .ok () ∧
     ingestion.pageRows (ingestion.run db mirror.run).1 mirror.url = []) ∧
    ¬ ingestion.IngestsAll .empty [first, changed] ∧ ¬ ingestion.IngestsAll .empty [first, mirror] := by
  refine ⟨by decide, ?_, ?_⟩
  · rintro ⟨-, -, -, done, -⟩
    exact absurd done (by decide)
  · rintro ⟨-, -, -, -, ⟨row, single, -⟩, -⟩
    have absent : ingestion.pageRows (ingestion.run (ingestion.run .empty first.run).1 mirror.run).1
        mirror.url = [] := by decide
    exact absurd (absent.symm.trans single) (by simp)

/-- The first page, read again under both its names, and another page. -/
theorem matched_pages_are_stored :
    ingestion.IngestsAll .empty [first, respelled, ⟨"https://b.test/", two⟩] := by
  refine (ingests_matched_pages ingestion _ ?_).mpr (by decide)
  rintro bytes ⟨page, member, rfl⟩ other ⟨page', member', rfl⟩ same
  simp only [List.mem_cons, List.not_mem_nil, or_false] at member member'
  rcases member with rfl | rfl | rfl <;> rcases member' with rfl | rfl | rfl
  all_goals first | rfl | exact absurd same (by decide)

end TwoVersions

end Webfang.Ingestion
