import Webfang.Library.Replacement
import Webfang.Output.UrlPath

/-!
# Saved pages

The writers of `infrastructure/output/file_saver.rs` that give each page a file of its own: the path
below the output directory, and the loop that writes one page after the other. What a page's file
holds is a parameter, and so is the answer of the file system to each write.
-/
namespace Webfang.Output

open Library UnixPath OutputPath

inductive PageFormat where
  | markdown
  | text
  deriving DecidableEq, Repr

def mdExtension : List Char := ".md".toList

def txtExtension : List Char := ".txt".toList

/-- What the text writer makes of a path, and the Markdown writer leaves as it is. -/
def PageFormat.reading : PageFormat → List Char → List Char
  | .markdown, path => path
  | .text, path => Replacement.replace mdExtension txtExtension path

structure Page (β : Type) where
  url : Url
  content : β

/-- The disk, and the places written to so far. -/
structure Saved (β : Type) where
  disk : Location → Option β
  files : List Location

section Writers

variable (hash : String → UInt64) (tables : CharTables)

def markdownPath (url : Url) : List Char :=
  Text.trimStartMatches ((OutputPath.fromUrlWithQuery hash url).toFullPath tables) outputPrefix

def textPath (url : Url) : List Char :=
  Replacement.replace mdExtension txtExtension
    (Text.trimStartMatches ((OutputPath.fromUrl url).toFullPath tables) outputPrefix)

def relativePath : PageFormat → Url → List Char
  | .markdown => markdownPath hash tables
  | .text => textPath tables

variable {β ε : Type} (io : Nat → Location → Option ε)

/-- `create_dir_all` and `write_atomic`; the answer may differ from one write to the next. -/
def writeAtomic (place : Location) (content : β) (saved : Saved β) : Except ε (Saved β) :=
  match io saved.files.length place with
  | some error => .error error
  | none => .ok ⟨Function.update saved.disk place (some content), saved.files ++ [place]⟩

variable (outputDir : Location)

def saveItem (path : Url → List Char) (saved : Saved β) (item : Page β) : Except ε (Saved β) :=
  writeAtomic io (resolve outputDir (path item.url)) item.content saved

def saveAsMarkdown (results : List (Page β)) (disk : Location → Option β) : Except ε (Saved β) :=
  results.foldlM (saveItem io outputDir (markdownPath hash tables)) ⟨disk, []⟩

def saveAsText (results : List (Page β)) (disk : Location → Option β) : Except ε (Saved β) :=
  results.foldlM (saveItem io outputDir (textPath tables)) ⟨disk, []⟩

/-- `created` is the answer of the file system to `create_dir_all(output_dir)`. -/
def saveResults (created : Except ε Unit) (format : PageFormat) (results : List (Page β))
    (disk : Location → Option β) : Except ε (Saved β) := do
  created
  match format with
  | .markdown => saveAsMarkdown hash tables io outputDir results disk
  | .text => saveAsText tables io outputDir results disk

variable {hash tables io outputDir}

theorem saveResults_ok {created : Except ε Unit} {format : PageFormat} {results : List (Page β)}
    {disk : Location → Option β} {saved : Saved β}
    (ok : saveResults hash tables io outputDir created format results disk = .ok saved) :
    results.foldlM (saveItem io outputDir (relativePath hash tables format)) ⟨disk, []⟩ = .ok saved := by
  cases created with
  | error e => cases ok
  | ok =>
    cases format with
    | markdown => exact ok
    | text => exact ok

theorem saveItem_ok {path : Url → List Char} {saved saved' : Saved β} {item : Page β}
    (ok : saveItem io outputDir path saved item = .ok saved') :
    saved' = ⟨Function.update saved.disk (resolve outputDir (path item.url)) (some item.content),
      saved.files ++ [resolve outputDir (path item.url)]⟩ := by
  rw [saveItem, writeAtomic] at ok
  split at ok
  next => cases ok
  next =>
    cases ok
    rfl

/-- A loop that comes to its end has written each page to its place. -/
theorem saveItems_files {path : Url → List Char} {results : List (Page β)} {saved saved' : Saved β}
    (ok : results.foldlM (saveItem io outputDir path) saved = .ok saved') :
    saved'.files = saved.files ++ results.map fun item => resolve outputDir (path item.url) := by
  induction results generalizing saved with
  | nil =>
    cases ok
    simp
  | cons item results ih =>
    rw [List.foldlM_cons] at ok
    cases first : saveItem io outputDir path saved item with
    | error e =>
      rw [first] at ok
      cases ok
    | ok next =>
      rw [first] at ok
      rw [ih ok, saveItem_ok first, List.map_cons, List.append_assoc, List.singleton_append]

theorem saveItems_disk_elsewhere {path : Url → List Char} {results : List (Page β)} {saved saved' : Saved β}
    (ok : results.foldlM (saveItem io outputDir path) saved = .ok saved') {place : Location}
    (elsewhere : ∀ item ∈ results, resolve outputDir (path item.url) ≠ place) :
    saved'.disk place = saved.disk place := by
  induction results generalizing saved with
  | nil =>
    cases ok
    rfl
  | cons item results ih =>
    rw [List.foldlM_cons] at ok
    cases first : saveItem io outputDir path saved item with
    | error e =>
      rw [first] at ok
      cases ok
    | ok next =>
      rw [first] at ok
      rw [ih ok fun other member => elsewhere other (.tail _ member), saveItem_ok first]
      exact Function.update_of_ne (elsewhere item List.mem_cons_self).symm _ _

/-- Where no two places are the same, every page is on the disk in the end. -/
theorem saveItems_kept {path : Url → List Char} {results : List (Page β)} {saved saved' : Saved β}
    (ok : results.foldlM (saveItem io outputDir path) saved = .ok saved')
    (apart : results.Pairwise fun item other =>
      resolve outputDir (path item.url) ≠ resolve outputDir (path other.url)) :
    ∀ item ∈ results, saved'.disk (resolve outputDir (path item.url)) = some item.content := by
  induction results generalizing saved with
  | nil => exact fun _ member => absurd member List.not_mem_nil
  | cons item results ih =>
    obtain ⟨here, later⟩ := List.pairwise_cons.mp apart
    rw [List.foldlM_cons] at ok
    cases first : saveItem io outputDir path saved item with
    | error e =>
      rw [first] at ok
      cases ok
    | ok next =>
      rw [first] at ok
      intro found member
      rcases List.mem_cons.mp member with rfl | member
      · -- the later pages go to other places
        rw [saveItems_disk_elsewhere ok fun other member => (here other member).symm, saveItem_ok first]
        exact Function.update_self _ _ _
      · exact ih ok later found member

end Writers

end Webfang.Output
