import Mathlib.Data.List.Forall2
import Webfang.Output.PathComponents

/-!
# Distinct files

Two pages of one run are saved to the same file exactly if their URLs meet: they lead to one
directory, and the texts of their names differ in characters only that become underscores. The text
writer reads no query and no fragment, and the Markdown writer folds them like the rest of the name.
-/
namespace Webfang.Output

open Library UnixPath OutputPath

/-! ### Texts that are read alike -/

/-- The characters that stand as underscores in a name. -/
def Marked (tables : CharTables) (c : Char) : Prop := tables.allowed c = false ∨ c = '_'

def SameSign (tables : CharTables) (c d : Char) : Prop := c = d ∨ Marked tables c ∧ Marked tables d

/-- Character by character the same, underscores and what becomes one apart. -/
def Alike (tables : CharTables) (format : PageFormat) (s t : List Char) : Prop :=
  List.Forall₂ (SameSign tables) (format.reading s) (format.reading t)

theorem foldChar_eq_mark_iff {tables : CharTables} {c : Char} :
    tables.foldChar c = '_' ↔ Marked tables c := by
  rw [CharTables.foldChar, Marked]
  split
  next passes => simp [passes]
  next refused => simp [refused]

theorem foldChar_unmarked {tables : CharTables} {c : Char} (unmarked : ¬ Marked tables c) :
    tables.foldChar c = c := by
  have passes : tables.allowed c = true := Bool.of_not_eq_false fun refused => unmarked (.inl refused)
  exact if_pos passes

theorem foldChar_same_iff {tables : CharTables} {c d : Char} :
    tables.foldChar c = tables.foldChar d ↔ SameSign tables c d := by
  by_cases first : Marked tables c
  · rw [foldChar_eq_mark_iff.mpr first, eq_comm, foldChar_eq_mark_iff]
    constructor
    · exact fun second => .inr ⟨first, second⟩
    · rintro (rfl | ⟨-, second⟩)
      · exact first
      · exact second
  · rw [foldChar_unmarked first]
    constructor
    · intro same
      -- a character that is kept is no underscore
      have second : ¬ Marked tables d := by
        rw [← foldChar_eq_mark_iff, ← same]
        exact fun mark => first (.inr mark)
      exact .inl (same.trans (foldChar_unmarked second))
    · rintro (rfl | ⟨marked, -⟩)
      · exact (foldChar_unmarked first).symm
      · exact absurd marked first

theorem alike_iff {tables : CharTables} {format : PageFormat} {s t : List Char} :
    Alike tables format s t ↔
      format.reading (tables.sanitizePathSegment s) = format.reading (tables.sanitizePathSegment t) := by
  have same : (fun c d => tables.foldChar c = tables.foldChar d) = SameSign tables :=
    funext fun c => funext fun d => propext foldChar_same_iff
  rw [PageFormat.reading_sanitize, PageFormat.reading_sanitize, CharTables.sanitizePathSegment,
    CharTables.sanitizePathSegment, Alike, ← List.forall₂_eq_eq_eq, List.forall₂_map_left_iff,
    List.forall₂_map_right_iff, same]

/-! ### The place of a page -/

section Places

variable (hash : String → UInt64) (tables : CharTables) (outputDir : Location) (format : PageFormat)

/-- The directory of a host. An empty host makes the path absolute. -/
def homeOf (host : Name) : Location := if host = [] then [] else enter outputDir (format.reading host)

/-- The directory of a page: that of its host, and below it the folders of its path. -/
def directoryOf (url : Url) : Location :=
  let names := (pathOf hash format url).path.folderNames tables
  if domain url = curDir ∧ names.head? = some outputName then outputDir ++ names.tail.map format.reading
  else homeOf outputDir format (domain url) ++ names.map format.reading

/-- Two URLs with one place. -/
structure Meets (url other : Url) : Prop where
  directory : directoryOf hash tables outputDir format url = directoryOf hash tables outputDir format other
  name : Alike tables format ((pathOf hash format url).path.nameText tables ++ mdExtension)
    ((pathOf hash format other).path.nameText tables ++ mdExtension)

/-- The path of a page leads to its directory, and there to its file. -/
theorem resolve_relativePath (url : Url) :
    resolve outputDir (relativePath hash tables format url) =
      directoryOf hash tables outputDir format url ++
        [format.reading ((pathOf hash format url).fileName tables)] := by
  have file := format.plain_reading ((pathOf hash format url).plain_fileName tables)
  -- folders and the file lead down, from wherever they are entered
  have down : ∀ {names : List Name}, (∀ name ∈ names, Plain name) →
      ∀ read ∈ names.map format.reading ++ [format.reading ((pathOf hash format url).fileName tables)],
        Plain read := by
    intro names plain read member
    rcases List.mem_append.mp member with folder | last
    · obtain ⟨name, inside, rfl⟩ := List.mem_map.mp folder
      exact format.plain_reading (plain name inside)
    · rw [List.mem_singleton.mp last]
      exact file
  have folders : ∀ name ∈ (pathOf hash format url).path.folderNames tables, Plain name := fun name member =>
    (UrlPath.plain_folderName member).1
  have absolute : [] ∉ (relativePath hash tables format url).splitOn sep →
      isAbsolute (relativePath hash tables format url) = false := fun named =>
    Bool.eq_false_iff.mpr (mt nil_mem_splitOn_of_absolute named)
  rw [relativePath_split] at absolute
  rw [resolve, relativePath_split, directoryOf]
  rw [keptNames, pathOf_domain] at absolute ⊢
  by_cases twice : domain url = curDir ∧
      ((pathOf hash format url).path.folderNames tables).head? = some outputName
  · rw [if_pos twice] at absolute
    rw [if_pos twice, if_pos twice]
    have later := down fun name member => folders name (List.mem_of_mem_tail member)
    rw [absolute fun none => (later [] none).nonempty rfl, if_neg (by decide), foldl_enter_plain later,
      List.append_assoc]
  · rw [if_neg twice] at absolute
    rw [if_neg twice, if_neg twice, List.map_cons, List.cons_append, List.foldl_cons,
      foldl_enter_plain (down folders), homeOf, List.append_assoc]
    congr 1
    by_cases empty : domain url = []
    · -- nothing stands before the first slash
      have root : isAbsolute (relativePath hash tables format url) = true := by
        rw [relativePath_eq, keptNames, pathOf_domain, if_neg twice, empty, List.map_cons, folders_cons,
          (format.reading_eq_short_iff (by decide)).mpr rfl]
        rfl
      rw [root, if_pos rfl, if_pos empty, empty, (format.reading_eq_short_iff (by decide)).mpr rfl]
      rfl
    · have relative := absolute fun none => by
        rcases List.mem_cons.mp none with host | later
        · exact empty ((format.reading_eq_short_iff (by decide)).mp host.symm)
        · exact (down folders [] later).nonempty rfl
      rw [relative, if_neg (by decide), if_neg empty]

theorem same_place_iff (url other : Url) :
    resolve outputDir (relativePath hash tables format url) =
        resolve outputDir (relativePath hash tables format other) ↔
      Meets hash tables outputDir format url other := by
  rw [resolve_relativePath, resolve_relativePath, ← List.concat_eq_append, ← List.concat_eq_append,
    List.concat_inj]
  constructor
  · rintro ⟨directory, name⟩
    exact ⟨directory, alike_iff.mpr name⟩
  · rintro ⟨directory, name⟩
    exact ⟨directory, alike_iff.mp name⟩

end Places

/-! ### Runs of the writers -/

/-- No page was written over another: the files are different, and each holds its page. -/
structure NothingOverwritten {β : Type} (results : List (Page β)) (saved : Saved β) : Prop where
  apart : saved.files.Pairwise (· ≠ ·)
  kept : List.Forall₂ (fun item place => saved.disk place = some item.content) results saved.files

/-- A run that succeeds overwrites nothing exactly if no two of its URLs meet. -/
theorem nothingOverwritten_iff {β ε : Type} {hash : String → UInt64} {tables : CharTables}
    {io : Nat → Location → Option ε} {outputDir : Location} {created : Except ε Unit} {format : PageFormat}
    {results : List (Page β)} {disk : Location → Option β} {saved : Saved β}
    (ok : saveResults hash tables io outputDir created format results disk = .ok saved) :
    NothingOverwritten results saved ↔
      results.Pairwise fun item other => ¬ Meets hash tables outputDir format item.url other.url := by
  have run := saveResults_ok ok
  have files := saveItems_files run
  rw [List.nil_append] at files
  have places : saved.files.Pairwise (· ≠ ·) ↔
      results.Pairwise fun item other => ¬ Meets hash tables outputDir format item.url other.url := by
    rw [files, List.pairwise_map]
    exact List.Pairwise.iff fun (item other : Page β) =>
      not_congr (same_place_iff hash tables outputDir format item.url other.url)
  rw [← places]
  refine ⟨NothingOverwritten.apart, fun apart => ⟨apart, ?_⟩⟩
  rw [files, List.forall₂_map_right_iff, List.forall₂_same]
  rw [files, List.pairwise_map] at apart
  exact saveItems_kept run apart

namespace QueryPages

def tables : CharTables := .ofAscii

def url (query : String) : Url :=
  ⟨"a.org".toList, "/p".toList, some query.toList, none, by decide, by decide⟩

def outputDir : Location := ["out".toList]

def save (format : PageFormat) (first second : String) : Except Empty (Saved Nat) :=
  saveResults (fun _ => 0) tables (fun _ _ => none) outputDir (.ok ()) format
    [⟨url first, 1⟩, ⟨url second, 2⟩] fun _ => none

def places (format : PageFormat) (first second : String) : List Location :=
  [url first, url second].map fun page => resolve outputDir (relativePath (fun _ => 0) tables format page)

theorem save_ok (format : PageFormat) (first second : String) :
    ∃ saved, save format first second = .ok saved ∧ saved.files = places format first second := by
  cases format with
  | markdown => exact ⟨_, rfl, rfl⟩
  | text => exact ⟨_, rfl, rfl⟩

/-- Markdown pages whose queries differ in a digit. -/
theorem markdown_apart : ∃ saved, save .markdown "x=1" "x=2" = .ok saved ∧
    NothingOverwritten [⟨url "x=1", 1⟩, ⟨url "x=2", 2⟩] saved := by
  obtain ⟨saved, ok, -⟩ := save_ok .markdown "x=1" "x=2"
  refine ⟨saved, ok, (nothingOverwritten_iff ok).mpr ?_⟩
  have names : ¬ Meets (fun _ => 0) tables outputDir .markdown (url "x=1") (url "x=2") := fun meets =>
    absurd (alike_iff.mp meets.name) (by decide +kernel)
  simpa using names

/-- Pages whose queries differ in a separator go to one file, in both formats. -/
theorem separators_meet : url "x=1" ≠ url "x:1" ∧ ∀ format, ∃ saved, save format "x=1" "x:1" = .ok saved ∧
    ¬ NothingOverwritten [⟨url "x=1", 1⟩, ⟨url "x:1", 2⟩] saved := by
  refine ⟨by decide, fun format => ?_⟩
  obtain ⟨saved, ok, files⟩ := save_ok format "x=1" "x:1"
  refine ⟨saved, ok, fun nothing => ?_⟩
  have apart := nothing.apart
  rw [files] at apart
  cases format with
  | markdown => exact absurd apart (by decide +kernel)
  | text => exact absurd apart (by decide +kernel)

end QueryPages

end Webfang.Output
