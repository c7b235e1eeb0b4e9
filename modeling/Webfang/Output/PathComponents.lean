import Webfang.Output.FileSaver

/-!
# Components of the relative path

What stands between the slashes of the path a page is saved to: the host, the folders of the path
and the name of the file, each of them read by itself.
-/
namespace Webfang.Output

open Library UnixPath

/-! ### Characters of a name -/

namespace CharTables

variable (tables : CharTables)

theorem allowed_ascii {c : Char} (ascii : c.toNat < 128) :
    tables.allowed c = (c.isAlphanum || c = '-' || c = '_' || c = '.') := by
  rw [allowed, tables.ascii c ascii]

theorem foldChar_ne {d : Char} (refused : tables.allowed d = false) (other : d ≠ '_') (c : Char) :
    tables.foldChar c ≠ d := by
  rw [foldChar]
  split
  next passed =>
    rintro rfl
    exact absurd passed (Bool.eq_false_iff.mp refused)
  next => exact other.symm

theorem foldChar_eq_iff {p : Char} (passes : tables.allowed p = true) (other : p ≠ '_') (c : Char) :
    tables.foldChar c = p ↔ c = p := by
  rw [foldChar]
  split
  next => rfl
  next refused =>
    refine iff_of_false other.symm ?_
    rintro rfl
    exact refused passes

theorem sep_notMem_sanitize (s : List Char) : sep ∉ tables.sanitizePathSegment s := by
  intro member
  obtain ⟨c, -, same⟩ := List.mem_map.mp member
  exact tables.foldChar_ne (tables.allowed_ascii (by decide)) (by decide) c same

theorem sanitize_same {s : List Char} (passes : ∀ c ∈ s, tables.allowed c = true) :
    tables.sanitizePathSegment s = s := by
  refine (List.map_congr_left fun c member => ?_).trans (List.map_id s)
  exact if_pos (passes c member)

/-- A text of ASCII characters that all pass. -/
theorem sanitize_ascii {s : List Char} (plain : s.all (fun c =>
      decide (c.toNat < 128) && (c.isAlphanum || c = '-' || c = '_' || c = '.')) = true) :
    tables.sanitizePathSegment s = s := by
  refine tables.sanitize_same fun c member => ?_
  obtain ⟨ascii, passes⟩ := Bool.and_eq_true_iff.mp (List.all_eq_true.mp plain c member)
  rw [tables.allowed_ascii (of_decide_eq_true ascii)]
  exact passes

/-- The extension is not made or lost by what happens to the other characters. -/
theorem blind_extension : Replacement.Blind mdExtension txtExtension tables.foldChar where
  pattern_iff := by
    intro c p member
    have listed : p = '.' ∨ p = 'm' ∨ p = 'd' := by
      simpa [mdExtension] using member
    rcases listed with rfl | rfl | rfl
    · exact tables.foldChar_eq_iff (tables.allowed_ascii (by decide)) (by decide) c
    · exact tables.foldChar_eq_iff (tables.allowed_ascii (by decide)) (by decide) c
    · exact tables.foldChar_eq_iff (tables.allowed_ascii (by decide)) (by decide) c
  replacement_same := tables.sanitize_ascii (by decide)

end CharTables

/-! ### What the formats read -/

namespace PageFormat

variable (format : PageFormat)

theorem reading_sanitize (tables : CharTables) (s : List Char) :
    format.reading (tables.sanitizePathSegment s) = tables.sanitizePathSegment (format.reading s) := by
  cases format with
  | markdown => rfl
  | text => exact Replacement.replace_map tables.blind_extension (by decide) s

theorem reading_folders (names : List Name) (file : Name) :
    format.reading (folders names ++ file) = folders (names.map format.reading) ++ format.reading file := by
  cases format with
  | markdown => rw [show PageFormat.markdown.reading = id from rfl, List.map_id]; rfl
  | text =>
    induction names with
    | nil => rfl
    | cons name names ih =>
      rw [folders_cons, List.append_assoc, List.cons_append, List.map_cons, folders_cons, List.append_assoc,
        List.cons_append, ← ih]
      exact Replacement.replace_append_cons (by decide) (by decide) name (folders names ++ file)

theorem sep_notMem_reading {s : List Char} (flat : sep ∉ s) : sep ∉ format.reading s := by
  cases format with
  | markdown => exact flat
  | text =>
    intro member
    rcases Replacement.mem_replace member with inside | inside
    · exact flat inside
    · exact absurd inside (by decide)

theorem length_reading (s : List Char) : s.length ≤ (format.reading s).length := by
  cases format with
  | markdown => exact Nat.le_refl _
  | text => exact (Replacement.replace_longer (by decide) (by decide) s).1

/-- A word of one or two characters is read from itself alone. -/
theorem reading_eq_short_iff {s short : List Char} (few : short.length ≤ 2) :
    format.reading s = short ↔ s = short := by
  have same_of_short : s.length ≤ 2 → format.reading s = s := by
    intro length
    cases format with
    | markdown => rfl
    | text =>
      refine Replacement.replace_of_absent fun occurs => ?_
      have le : 3 ≤ s.length := occurs.length_le
      omega
  constructor
  · intro read
    have length := format.length_reading s
    rw [read] at length
    rw [← read, same_of_short (length.trans few)]
  · rintro rfl
    exact same_of_short few

theorem plain_reading {name : Name} (plain : Plain name) : Plain (format.reading name) where
  nonempty := mt (format.reading_eq_short_iff (by decide)).mp plain.nonempty
  not_cur := mt (format.reading_eq_short_iff (by decide)).mp plain.not_cur
  not_parent := mt (format.reading_eq_short_iff (by decide)).mp plain.not_parent

end PageFormat

/-! ### Folders and file name -/

namespace UrlPath

/-- The pieces of the path before its last slash; slashes in a row make no piece. -/
def pieces (path : UrlPath) : List Name :=
  if path.isRoot then [] else ((path.raw.splitOn sep).dropLast).filter fun piece => !piece.isEmpty

/-- The text that the file name is made of, with the marks of a reserved name and of a slash at the end. -/
def nameText (tables : CharTables) (path : UrlPath) : List Char :=
  if path.isRoot then "index".toList
  else
    let text := path.slug
    let isReserved := Domain.Filename.isWindowsReserved (tables.sanitizePathSegment text)
    let text := if isReserved then text ++ "_safe".toList else text
    if path.endsWithSlash && !text.isEmpty then text ++ ['_'] else text

theorem pieces_dropWhile (raw : List Char) :
    (((raw.dropWhile (· = sep)).splitOn sep).dropLast).filter (fun piece => !piece.isEmpty) =
      ((raw.splitOn sep).dropLast).filter fun piece => !piece.isEmpty := by
  induction raw with
  | nil => rfl
  | cons c raw ih =>
    by_cases slash : c = sep
    · subst slash
      obtain ⟨piece, later, split⟩ := List.exists_cons_of_ne_nil (List.splitOn_ne_nil sep raw)
      rw [List.dropWhile_cons_of_pos (by simp), ih, splitOn_sep_cons, split, List.dropLast_cons_cons]
      rfl
    · rw [List.dropWhile_cons_of_neg (by simpa using slash)]

theorem splitOn_cons_other {c : Char} (other : c ≠ sep) (s : List Char) :
    ∃ piece later, (c :: s).splitOn sep = (c :: piece) :: later := by
  obtain ⟨piece, later, split⟩ := List.exists_cons_of_ne_nil (List.splitOn_ne_nil sep s)
  refine ⟨piece, later, ?_⟩
  rw [List.splitOn_cons_eq_if_modifyHead, if_neg (by simpa using other), split]
  rfl

theorem splitOn_dropLast {text : List Char} (slash : sep ∈ text) :
    ((text.rdropWhile (· ≠ sep)).dropLast).splitOn sep = (text.splitOn sep).dropLast := by
  -- the text is cut at its last slash
  obtain ⟨last, front, cut, absent⟩ := List.eq_append_cons_of_mem (List.mem_reverse.mpr slash)
  have whole : text = front.reverse ++ sep :: last.reverse := by
    rw [← List.reverse_reverse text, cut, List.reverse_append, List.reverse_cons, List.append_assoc]
    rfl
  have absent' : sep ∉ last.reverse := fun member => absent (List.mem_reverse.mp member)
  have kept : text.rdropWhile (· ≠ sep) = front.reverse ++ [sep] := by
    rw [List.rdropWhile, cut, List.dropWhile_append_of_pos]
    · rw [List.dropWhile_cons_of_neg (by simp), List.reverse_cons]
    · intro c member
      exact decide_eq_true fun same => absent (same ▸ member)
  rw [kept, List.dropLast_concat, whole, List.splitOn_append_cons_self, List.splitOn_eq_singleton absent',
    List.dropLast_concat]

theorem toDirectory_eq (tables : CharTables) (path : UrlPath) :
    path.toDirectory tables = folders (path.pieces.map (sanitizeComponent tables)) := by
  rw [toDirectory, pieces]
  split
  next => rfl
  next =>
    dsimp only
    rw [← pieces_dropWhile path.raw]
    split
    next slash =>
      rw [splitOn_dropLast slash]
      refine folders_intercalate fun none => ?_
      -- the first piece begins with the first character, which is no slash
      cases text : path.raw.dropWhile (· = '/') with
      | nil =>
        rw [text] at slash
        exact List.not_mem_nil slash
      | cons c rest =>
        have other : c ≠ sep := by
          have first := List.head_dropWhile_not (fun c => decide (c = '/')) (l := path.raw)
          simpa [text] using first
        rw [text] at none slash
        obtain ⟨front, last, rfl⟩ := List.append_of_mem ((List.mem_cons.mp slash).resolve_left other.symm)
        obtain ⟨piece, later, split⟩ := splitOn_cons_other other front
        rw [← List.cons_append, List.splitOn_append_cons_self, split,
          List.dropLast_append_of_ne_nil (List.splitOn_ne_nil sep last)] at none
        simp at none
    next flat =>
      rw [List.splitOn_eq_singleton flat]
      rfl

theorem sanitize_index (tables : CharTables) : tables.sanitizePathSegment "index".toList = "index".toList :=
  tables.sanitize_ascii (by decide)

/-- The file name is the sanitised text with its extension. -/
theorem toSafeFilename_eq (tables : CharTables) (path : UrlPath) :
    path.toSafeFilenameWithFormat tables none =
      tables.sanitizePathSegment (path.nameText tables ++ mdExtension) := by
  have append : ∀ s t, tables.sanitizePathSegment (s ++ t) =
      tables.sanitizePathSegment s ++ tables.sanitizePathSegment t := fun s t => List.map_append
  have extension : tables.sanitizePathSegment mdExtension = mdExtension := tables.sanitize_ascii (by decide)
  have safe : tables.sanitizePathSegment "_safe".toList = "_safe".toList := tables.sanitize_ascii (by decide)
  have mark : tables.sanitizePathSegment ['_'] = ['_'] := tables.sanitize_ascii (by decide)
  rw [toSafeFilenameWithFormat, nameText, append, extension]
  split
  next =>
    rw [sanitize_index]
    rfl
  next =>
    dsimp only
    -- the two marks pass the sanitizer unchanged
    have reserved : tables.sanitizePathSegment
        (if Domain.Filename.isWindowsReserved (tables.sanitizePathSegment path.slug) then
          path.slug ++ "_safe".toList else path.slug) =
        if Domain.Filename.isWindowsReserved (tables.sanitizePathSegment path.slug)
        then tables.sanitizePathSegment path.slug ++ "_safe".toList
        else tables.sanitizePathSegment path.slug := by
      split
      · rw [append, safe]
      · rfl
    rw [← reserved]
    generalize (if Domain.Filename.isWindowsReserved (tables.sanitizePathSegment path.slug) then
      path.slug ++ "_safe".toList else path.slug) = text
    have empty : (tables.sanitizePathSegment text).isEmpty = text.isEmpty := List.isEmpty_map
    rw [empty]
    split
    · rw [append, mark]
      rfl
    · rfl

theorem sep_notMem_component (tables : CharTables) (piece : Name) : sep ∉ sanitizeComponent tables piece := by
  rw [sanitizeComponent]
  split
  · decide
  · exact tables.sep_notMem_sanitize piece

/-- A folder is a name that leads down. -/
theorem plain_component (tables : CharTables) {piece : Name} (more : piece ≠ []) :
    Plain (sanitizeComponent tables piece) := by
  have dot : ∀ c, tables.foldChar c = '.' ↔ c = '.' :=
    tables.foldChar_eq_iff (tables.allowed_ascii (by decide)) (by decide)
  rw [sanitizeComponent]
  split
  next => exact ⟨by decide, by decide, by decide⟩
  next other =>
    obtain ⟨not_cur, not_parent⟩ := not_or.mp other
    refine ⟨fun same => more (List.map_eq_nil_iff.mp same), fun same => not_cur ?_, fun same => not_parent ?_⟩
    · obtain ⟨c, rest, rfl, first, none⟩ := List.map_eq_cons_iff.mp same
      rw [(dot c).mp first, List.map_eq_nil_iff.mp none]
      rfl
    · obtain ⟨c, rest, rfl, first, later⟩ := List.map_eq_cons_iff.mp same
      obtain ⟨d, rest, rfl, second, none⟩ := List.map_eq_cons_iff.mp later
      rw [(dot c).mp first, (dot d).mp second, List.map_eq_nil_iff.mp none]
      rfl

theorem pieces_nonempty {path : UrlPath} {piece : Name} (member : piece ∈ path.pieces) : piece ≠ [] := by
  rw [pieces] at member
  split at member
  · exact absurd member List.not_mem_nil
  · simpa using (List.mem_filter.mp member).2

def folderNames (tables : CharTables) (path : UrlPath) : List Name :=
  path.pieces.map (sanitizeComponent tables)

theorem plain_folderName {tables : CharTables} {path : UrlPath} {name : Name}
    (member : name ∈ path.folderNames tables) : Plain name ∧ sep ∉ name := by
  obtain ⟨piece, inside, rfl⟩ := List.mem_map.mp member
  exact ⟨plain_component tables (pieces_nonempty inside), sep_notMem_component tables piece⟩

end UrlPath

namespace OutputPath

def outputName : Name := "output".toList

def fileName (tables : CharTables) (path : OutputPath) : Name :=
  tables.sanitizePathSegment (path.path.nameText tables ++ mdExtension)

/-- The folders of the relative path. The marker in front of the full path is taken off as often as it
stands there, which is once more for the host `.` and a first folder `output`. -/
def keptNames (tables : CharTables) (path : OutputPath) : List Name :=
  if path.domain = curDir ∧ (path.path.folderNames tables).head? = some outputName then
    (path.path.folderNames tables).tail
  else path.domain :: path.path.folderNames tables

theorem toFullPath_eq (tables : CharTables) (path : OutputPath) :
    path.toFullPath tables =
      outputPrefix ++ (folders (path.domain :: path.path.folderNames tables) ++ path.fileName tables) := by
  rw [toFullPath, toFullPathWithFormat, toFolderPath, UrlPath.toDirectory_eq, UrlPath.toSafeFilename_eq,
    ← UrlPath.folderNames, ← fileName]
  split
  next none =>
    rw [folders_cons, none]
    simp
  next => simp

theorem sep_notMem_fileName (tables : CharTables) (path : OutputPath) : sep ∉ path.fileName tables :=
  tables.sep_notMem_sanitize _

theorem plain_fileName (tables : CharTables) (path : OutputPath) : Plain (path.fileName tables) := by
  have length : 3 ≤ (path.fileName tables).length := by
    rw [fileName, CharTables.sanitizePathSegment, List.length_map, List.length_append]
    exact Nat.le_add_left 3 _
  refine ⟨fun none => ?_, fun cur => ?_, fun parent => ?_⟩
  · rw [none] at length
    exact absurd length (by decide)
  · rw [cur] at length
    exact absurd length (by decide)
  · rw [parent] at length
    exact absurd length (by decide)

theorem outputPrefix_eq : outputPrefix = curDir ++ sep :: (outputName ++ sep :: []) := rfl

theorem outputPrefix_prefix_iff {name file : Name} {names : List Name} (flat : sep ∉ name)
    (flats : ∀ other ∈ names, sep ∉ other) (last : sep ∉ file) :
    outputPrefix <+: folders (name :: names) ++ file ↔ name = curDir ∧ names.head? = some outputName := by
  rw [folders_cons, List.append_assoc, List.cons_append, outputPrefix_eq,
    prefix_name_iff (by decide) flat, eq_comm]
  refine and_congr_right fun _ => ?_
  cases names with
  | nil =>
    refine iff_of_false (fun opens => last ?_) (by simp)
    rw [folders_nil, List.nil_append] at opens
    exact opens.subset (by simp)
  | cons folder names =>
    rw [folders_cons, List.append_assoc, List.cons_append,
      prefix_name_iff (by decide) (flats folder List.mem_cons_self)]
    simp [eq_comm]

/-- Taking the marker off leaves the kept folders and the file. -/
theorem trimmed_eq (tables : CharTables) {path : OutputPath} (flat : sep ∉ path.domain) :
    Text.trimStartMatches (path.toFullPath tables) outputPrefix =
      folders (path.keptNames tables) ++ path.fileName tables := by
  have names := fun name (member : name ∈ path.path.folderNames tables) => UrlPath.plain_folderName member
  have last := path.sep_notMem_fileName tables
  have opens := outputPrefix_prefix_iff flat (fun name member => (names name member).2) last
  rw [toFullPath_eq, keptNames, Text.trimStartMatches, List.length_append,
    show outputPrefix.length = 8 + 1 from rfl, Nat.add_right_comm, Text.trimStart_append]
  split
  next again =>
    obtain ⟨cur, first⟩ := again
    cases shown : path.path.folderNames tables with
    | nil =>
      rw [shown] at first
      cases first
    | cons name later =>
      rw [shown] at first names
      cases Option.some.inj first
      have marker : folders (path.domain :: outputName :: later) ++ path.fileName tables =
          outputPrefix ++ (folders later ++ path.fileName tables) := by
        rw [folders_cons, folders_cons, cur, outputPrefix_eq]
        simp only [List.append_assoc, List.cons_append, List.nil_append]
      -- a third marker would need a folder that is a dot
      have stops : ¬ outputPrefix <+: folders later ++ path.fileName tables := by
        cases later with
        | nil =>
          have slash : sep ∈ outputPrefix := by decide
          exact fun opens => last (opens.subset slash)
        | cons folder later =>
          have flats : ∀ other ∈ later, sep ∉ other := fun other member =>
            (names other (.tail _ (.tail _ member))).2
          have third := outputPrefix_prefix_iff (names folder (by simp)).2 flats last
          exact fun opens => (names folder (by simp)).1.not_cur (third.mp opens).1
      rw [marker, show 8 + (outputPrefix ++ (folders later ++ path.fileName tables)).length =
        7 + (outputPrefix ++ (folders later ++ path.fileName tables)).length + 1 by omega,
        Text.trimStart_append, Text.trimStart_of_absent stops]
      rfl
  next once => exact Text.trimStart_of_absent (mt opens.mp once) _

end OutputPath

def pathOf (hash : String → UInt64) : PageFormat → Url → OutputPath
  | .markdown, url => .fromUrlWithQuery hash url
  | .text, url => .fromUrl url

theorem sep_notMem_domain (url : Url) : sep ∉ domain url := by
  rw [domain]
  split
  · exact fun member => url.flat (List.mem_of_mem_drop member)
  · exact url.flat

theorem pathOf_domain (hash : String → UInt64) (format : PageFormat) (url : Url) :
    (pathOf hash format url).domain = domain url := by
  cases format <;> rfl

theorem relativePath_eq (hash : String → UInt64) (tables : CharTables) (format : PageFormat) (url : Url) :
    relativePath hash tables format url =
      folders (((pathOf hash format url).keptNames tables).map format.reading) ++
        format.reading ((pathOf hash format url).fileName tables) := by
  have flat : sep ∉ (pathOf hash format url).domain := by
    rw [pathOf_domain]
    exact sep_notMem_domain url
  rw [← PageFormat.reading_folders, ← OutputPath.trimmed_eq tables flat]
  cases format <;> rfl

theorem keptNames_flat {tables : CharTables} {path : OutputPath} (flat : sep ∉ path.domain) :
    ∀ name ∈ path.keptNames tables, sep ∉ name := by
  intro name member
  rw [OutputPath.keptNames] at member
  split at member
  · exact (UrlPath.plain_folderName (List.mem_of_mem_tail member)).2
  · rcases List.mem_cons.mp member with rfl | inside
    · exact flat
    · exact (UrlPath.plain_folderName inside).2

theorem relativePath_split (hash : String → UInt64) (tables : CharTables) (format : PageFormat) (url : Url) :
    (relativePath hash tables format url).splitOn sep =
      ((pathOf hash format url).keptNames tables).map format.reading ++
        [format.reading ((pathOf hash format url).fileName tables)] := by
  have flat : sep ∉ (pathOf hash format url).domain := by
    rw [pathOf_domain]
    exact sep_notMem_domain url
  rw [relativePath_eq]
  refine splitOn_folders (fun name member => ?_) ?_
  · obtain ⟨read, inside, rfl⟩ := List.mem_map.mp member
    exact format.sep_notMem_reading (keptNames_flat flat read inside)
  · exact format.sep_notMem_reading (OutputPath.sep_notMem_fileName tables _)

end Webfang.Output
