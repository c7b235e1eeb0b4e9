import Webfang.Output.PathComponents

/-!
# Confined paths

A saved page stays below the output directory where its relative path has no component that is
empty, that leads upwards, or that is too long for the file system. The folders and the file name
are sanitised and the host is not, and the writers bound the length of the query suffix only: the
path is confined exactly for the URLs that fit.
-/
namespace Webfang.Output

open Library UnixPath OutputPath

/-- The longest name of a file system entry. -/
def maxComponentBytes : Nat := 255

structure GoodComponent (component : Name) : Prop where
  named : component ≠ []
  below : component ≠ parentDir
  short : Text.utf8Len component ≤ maxComponentBytes

structure Confined (path : List Char) : Prop where
  relative : isAbsolute path = false
  inside : ∀ outputDir, outputDir <+: resolve outputDir path
  components : ∀ component ∈ path.splitOn sep, GoodComponent component

theorem confined_of_components {path : List Char}
    (components : ∀ component ∈ path.splitOn sep, GoodComponent component) :
    Confined path := by
  have relative : isAbsolute path = false := by
    rw [Bool.eq_false_iff]
    exact fun absolute => (components [] (nil_mem_splitOn_of_absolute absolute)).named rfl
  refine ⟨relative, fun outputDir => ?_, components⟩
  rw [resolve, relative]
  exact prefix_foldl_enter (fun name member => (components name member).below) outputDir

/-! ### Lengths of names -/

/-- The bytes of a character in a sanitised name. -/
def charWidth (tables : CharTables) (c : Char) : Nat := if tables.allowed c then c.utf8Size else 1

/-- The bytes that a name gains from the format: one for each extension that is read as another. -/
def PageFormat.growth : PageFormat → List Char → Nat
  | .markdown, _ => 0
  | .text, s => Replacement.occurrences mdExtension s

def width (tables : CharTables) (format : PageFormat) (s : List Char) : Nat :=
  (s.map (charWidth tables)).sum + format.growth s

/-- What a URL must be for its path to be confined. -/
structure Fits (hash : String → UInt64) (tables : CharTables) (format : PageFormat) (url : Url) : Prop where
  named : domain url ≠ []
  below : domain url ≠ parentDir
  host : Text.utf8Len (domain url) + format.growth (domain url) ≤ maxComponentBytes
  folders : ∀ piece ∈ (pathOf hash format url).path.pieces, width tables format piece ≤ maxComponentBytes
  file : width tables format ((pathOf hash format url).path.nameText tables ++ mdExtension) ≤
    maxComponentBytes

theorem utf8Len_reading (format : PageFormat) (s : List Char) :
    Text.utf8Len (format.reading s) = Text.utf8Len s + format.growth s := by
  cases format with
  | markdown => rfl
  | text =>
    have weight := Replacement.weight_replace mdExtension txtExtension Char.utf8Size (by decide) s
    have three : (mdExtension.map Char.utf8Size).sum = 3 := by decide
    have four : (txtExtension.map Char.utf8Size).sum = 4 := by decide
    rw [three, four] at weight
    simp only [PageFormat.reading, PageFormat.growth, Text.utf8Len]
    omega

theorem utf8Len_sanitize (tables : CharTables) (s : List Char) :
    Text.utf8Len (tables.sanitizePathSegment s) = (s.map (charWidth tables)).sum := by
  rw [Text.utf8Len, CharTables.sanitizePathSegment, List.map_map]
  congr 1
  refine List.map_congr_left fun c _ => ?_
  simp only [Function.comp, CharTables.foldChar, charWidth]
  split <;> rfl

theorem growth_sanitize (tables : CharTables) (format : PageFormat) (s : List Char) :
    format.growth (tables.sanitizePathSegment s) = format.growth s := by
  cases format with
  | markdown => rfl
  | text => exact Replacement.occurrencesFrom_map tables.blind_extension.pattern_iff 0 s

theorem utf8Len_reading_sanitize (tables : CharTables) (format : PageFormat) (s : List Char) :
    Text.utf8Len (format.reading (tables.sanitizePathSegment s)) = width tables format s := by
  rw [utf8Len_reading, utf8Len_sanitize, growth_sanitize, width]

/-! ### The three kinds of components -/

theorem goodComponent_host_iff (format : PageFormat) (host : Name) :
    GoodComponent (format.reading host) ↔
      host ≠ [] ∧ host ≠ parentDir ∧ Text.utf8Len host + format.growth host ≤ maxComponentBytes := by
  have named : format.reading host = [] ↔ host = [] := format.reading_eq_short_iff (by decide)
  have below : format.reading host = parentDir ↔ host = parentDir := format.reading_eq_short_iff (by decide)
  have length := utf8Len_reading format host
  constructor
  · intro good
    exact ⟨mt named.mpr good.named, mt below.mpr good.below, length ▸ good.short⟩
  · rintro ⟨more, other, short⟩
    exact ⟨mt named.mp more, mt below.mp other, length.trans_le short⟩

theorem width_dots (tables : CharTables) (format : PageFormat) {piece : Name}
    (dots : piece = curDir ∨ piece = parentDir) : width tables format piece ≤ maxComponentBytes := by
  rw [← utf8Len_reading_sanitize]
  rcases dots with rfl | rfl
  · have kept : tables.sanitizePathSegment curDir = curDir := tables.sanitize_ascii (by decide)
    rw [kept, (format.reading_eq_short_iff (by decide)).mpr rfl]
    decide
  · have kept : tables.sanitizePathSegment parentDir = parentDir := tables.sanitize_ascii (by decide)
    rw [kept, (format.reading_eq_short_iff (by decide)).mpr rfl]
    decide

theorem goodComponent_folder_iff (tables : CharTables) (format : PageFormat) {piece : Name}
    (more : piece ≠ []) :
    GoodComponent (format.reading (UrlPath.sanitizeComponent tables piece)) ↔
      width tables format piece ≤ maxComponentBytes := by
  have plain := UrlPath.plain_component tables more
  have by_length : GoodComponent (format.reading (UrlPath.sanitizeComponent tables piece)) ↔
      Text.utf8Len (format.reading (UrlPath.sanitizeComponent tables piece)) ≤ maxComponentBytes := by
    rw [goodComponent_host_iff, ← utf8Len_reading]
    exact ⟨fun good => good.2.2, fun short => ⟨plain.nonempty, plain.not_parent, short⟩⟩
  rw [by_length, UrlPath.sanitizeComponent]
  split
  next dots =>
    -- a dot segment becomes one underscore
    refine iff_of_true ?_ (width_dots tables format dots)
    rw [(format.reading_eq_short_iff (by decide)).mpr rfl]
    decide
  next => rw [utf8Len_reading_sanitize]

theorem goodComponent_file_iff (tables : CharTables) (format : PageFormat) (path : OutputPath) :
    GoodComponent (format.reading (path.fileName tables)) ↔
      width tables format (path.path.nameText tables ++ mdExtension) ≤ maxComponentBytes := by
  have plain := format.plain_reading (path.plain_fileName tables)
  rw [← utf8Len_reading_sanitize]
  exact ⟨GoodComponent.short, fun short => ⟨plain.nonempty, plain.not_parent, short⟩⟩

theorem goodComponents_iff (hash : String → UInt64) (tables : CharTables) (format : PageFormat) (url : Url) :
    (∀ component ∈ (relativePath hash tables format url).splitOn sep, GoodComponent component) ↔
      Fits hash tables format url := by
  have pieces :
      (∀ name ∈ (pathOf hash format url).path.folderNames tables, GoodComponent (format.reading name)) ↔
      ∀ piece ∈ (pathOf hash format url).path.pieces, width tables format piece ≤ maxComponentBytes := by
    rw [UrlPath.folderNames, List.forall_mem_map]
    exact forall₂_congr fun piece member =>
      goodComponent_folder_iff tables format (UrlPath.pieces_nonempty member)
  have file := goodComponent_file_iff tables format (pathOf hash format url)
  -- what is left out when the marker is taken off twice is short
  have kept : (∀ name ∈ (pathOf hash format url).keptNames tables, GoodComponent (format.reading name)) ↔
      GoodComponent (format.reading (domain url)) ∧
        ∀ name ∈ (pathOf hash format url).path.folderNames tables, GoodComponent (format.reading name) := by
    rw [keptNames, pathOf_domain]
    split
    next twice =>
      obtain ⟨cur, first⟩ := twice
      have host : GoodComponent (format.reading curDir) := by
        rw [goodComponent_host_iff, ← utf8Len_reading, (format.reading_eq_short_iff (by decide)).mpr rfl]
        exact ⟨by decide, by decide, by decide⟩
      have marker : GoodComponent (format.reading outputName) := by
        rw [goodComponent_host_iff]
        cases format <;> exact ⟨by decide, by decide, by decide⟩
      cases shown : (pathOf hash format url).path.folderNames tables with
      | nil =>
        rw [shown] at first
        cases first
      | cons name later =>
        rw [shown] at first
        cases Option.some.inj first
        rw [cur, List.forall_mem_cons, List.tail_cons]
        exact ⟨fun names => ⟨host, marker, names⟩, fun all => all.2.2⟩
    next => rw [List.forall_mem_cons]
  rw [relativePath_split, List.forall_mem_append, List.forall_mem_map, List.forall_mem_singleton, kept,
    pieces, file, goodComponent_host_iff]
  constructor
  · rintro ⟨⟨⟨named, below, host⟩, folders⟩, file⟩
    exact ⟨named, below, host, folders, file⟩
  · rintro ⟨named, below, host, folders, file⟩
    exact ⟨⟨⟨named, below, host⟩, folders⟩, file⟩

/-- The path of a page is confined exactly if its URL fits. -/
theorem confined_iff_fits (hash : String → UInt64) (tables : CharTables) (format : PageFormat) (url : Url) :
    Confined (relativePath hash tables format url) ↔ Fits hash tables format url := by
  rw [← goodComponents_iff]
  exact ⟨Confined.components, confined_of_components⟩

namespace ParentHost

def tables : CharTables := .ofAscii

/-- The page `http://../a`. -/
def url : Url := ⟨parentDir, "/a".toList, none, none, by decide, by decide⟩

/-- The file of the page is beside the output directory, in both formats. -/
theorem written_outside : ¬ Confined (relativePath (fun _ => 0) tables .markdown url) ∧
    ¬ Confined (relativePath (fun _ => 0) tables .text url) := by
  constructor
  · intro confined
    have component : parentDir ∈ (relativePath (fun _ => 0) tables .markdown url).splitOn sep := by decide
    exact (confined.components parentDir component).below rfl
  · intro confined
    have component : parentDir ∈ (relativePath (fun _ => 0) tables .text url).splitOn sep := by decide
    exact (confined.components parentDir component).below rfl

end ParentHost

end Webfang.Output
